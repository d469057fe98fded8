import VllmProofs.V1.PoolInvariant

/-!
What `cache_full_blocks` records: which blocks get a hash, and that block `i` of a request gets the
`i`-th hash of its chain, one computed before or the next one.
-/

namespace Vllm.V1
open Exec

namespace BlockPool

variable [TupleHash] {s t : BlockPool} {held : BlockId → ℕ} {request : Request} {blockSize : ℕ}

structure Hashed (blocks : List BlockId) (s t : BlockPool) : Prop where
  indexed : t.Indexed
  queue : SameQueue s t
  kept : ∀ b, s.hashOf b ≠ none → t.hashOf b = s.hashOf b
  others : ∀ b, b ∉ blocks → t.hashOf b = s.hashOf b

omit [TupleHash] in
theorem Hashed.refl (indexed : s.Indexed) (blocks : List BlockId) : Hashed blocks s s :=
  ⟨indexed, SameQueue.refl s, fun _ _ => rfl, fun _ _ => rfl⟩

variable {blocks : List BlockId}

omit [TupleHash] in
theorem Hashed.mono {blocks' : List BlockId} (hashed : Hashed blocks s t) (sub : blocks ⊆ blocks') :
    Hashed blocks' s t :=
  ⟨hashed.indexed, hashed.queue, hashed.kept, fun b outside => hashed.others b fun member =>
    outside (sub member)⟩

omit [TupleHash] in
theorem mem_of_mem_slice {α : Type} {xs : List α} {lo hi : ℤ} {x : α} (member : x ∈ PySlice.slice xs lo hi) :
    x ∈ xs := List.mem_of_mem_take (List.mem_of_mem_drop member)

variable {hashes hashes' : List BlockHash} {prev : Option ℤ}
variable {numCached : ℤ} {newHashes : List BlockHash} {i : ℕ} {h : BlockHash}

theorem blockHashAt_prefixed
    (found : blockHashAt request blockSize numCached newHashes i prev hashes = .ok (h, hashes')) :
    hashes <+: hashes' := by
  unfold blockHashAt at found
  split at found
  · cases found
    exact List.prefix_refl _
  · cases next : nextBlockHash request blockSize (numCached + i) prev with
    | error raised =>
      rw [next] at found
      cases found
    | ok h' =>
      rw [next] at found
      cases found
      exact List.prefix_append _ _

theorem cacheLoop_hashed (indexed : s.Indexed) (caching : s.enableCaching = true)
    (known : ∀ b ∈ blocks, b < s.numGpuBlocks)
    (call : cacheLoop request blockSize numCached newHashes i blocks prev hashes s = .ok hashes' t) :
    Hashed blocks s t ∧ hashes <+: hashes' := by
  induction blocks generalizing s i prev hashes with
  | nil =>
    cases call
    exact ⟨Hashed.refl indexed [], List.prefix_refl _⟩
  | cons b rest ih =>
    unfold cacheLoop at call
    rw [get_bind] at call
    obtain ⟨_, v, checked, call⟩ := bind_ok call
    obtain ⟨fresh, rfl⟩ := check_ok checked
    cases found : blockHashAt request blockSize numCached newHashes i prev hashes with
    | error raised =>
      rw [found] at call
      cases call
    | ok known' =>
      obtain ⟨h, hashes₁⟩ := known'
      rw [found] at call
      dsimp only at call
      rw [modify_bind] at call
      obtain ⟨indexed₁, hashOf₁, queue₁⟩ := indexed.enter (h := h) (known b List.mem_cons_self) caching fresh
      have knownRest : ∀ c ∈ rest, c < (enter h b s).numGpuBlocks := fun c member =>
        known c (List.mem_cons_of_mem b member)
      obtain ⟨hashed, prefix₁⟩ := ih indexed₁ caching knownRest call
      refine ⟨⟨hashed.indexed, queue₁.trans hashed.queue, ?_, ?_⟩, (blockHashAt_prefixed found).trans prefix₁⟩
      · intro c some
        have different : c ≠ b := by
          rintro rfl
          exact some fresh
        have here : (enter h b s).hashOf c = s.hashOf c := by
          rw [hashOf₁, Function.update_of_ne different]
        rw [hashed.kept c (here ▸ some), here]
      · intro c outside
        rw [List.mem_cons, not_or] at outside
        rw [hashed.others c outside.2, hashOf₁, Function.update_of_ne outside.1]

omit [TupleHash] in
theorem prevHashValue_ok (call : prevHashValue blocks numCached s = .ok prev t) :
    ((numCached = 0 ∧ prev = none) ∨ (numCached ≠ 0 ∧ ∃ b h, PySlice.get? blocks (numCached - 1) = some b ∧
      s.hashOf b = some h ∧ prev = some h.hashValue)) ∧ s = t := by
  unfold prevHashValue at call
  split at call
  · rename_i none
    cases call
    exact ⟨Or.inl ⟨none, rfl⟩, rfl⟩
  · rename_i some
    obtain ⟨b, w, got, read⟩ := bind_ok call
    obtain ⟨before, rfl⟩ := getItem_ok got
    rw [get_bind] at read
    obtain ⟨h, w, got, last⟩ := bind_ok read
    obtain ⟨hash, rfl⟩ := getItem_ok got
    cases last
    exact ⟨Or.inr ⟨some, b, h, before, hash, rfl⟩, rfl⟩

theorem cacheFullBlocks_hashed
    {numFull : ℤ} (indexed : s.Indexed) (caching : s.enableCaching = true)
    (known : ∀ b ∈ blocks, b < s.numGpuBlocks)
    (call : cacheFullBlocks request blocks hashes numCached numFull blockSize s = .ok hashes' t) :
    Hashed (PySlice.slice blocks numCached numFull) s t ∧ hashes <+: hashes' := by
  unfold cacheFullBlocks at call
  split at call
  · cases call
    exact ⟨Hashed.refl indexed _, List.prefix_refl _⟩
  · obtain ⟨_, v, checked, call⟩ := bind_ok call
    obtain ⟨-, rfl⟩ := check_ok checked
    dsimp only at call
    obtain ⟨prev, v, read, loop⟩ := bind_ok call
    obtain ⟨-, rfl⟩ := prevHashValue_ok read
    exact cacheLoop_hashed indexed caching (fun b member => known b (mem_of_mem_slice member)) loop

/-- Hashes of the request's next blocks have been appended, one after the other. -/
inductive Extended (request : Request) (blockSize : ℕ) (hashes : List BlockHash) : List BlockHash → Prop
  | start : Extended request blockSize hashes hashes
  | next {hashes' : List BlockHash} {h : BlockHash} : Extended request blockSize hashes hashes' →
      nextBlockHash request blockSize hashes'.length (lastValue hashes') = .ok h →
      Extended request blockSize hashes (hashes' ++ [h])

theorem Extended.trans {one two three : List BlockHash} (first : Extended request blockSize one two)
    (second : Extended request blockSize two three) : Extended request blockSize one three := by
  induction second with
  | start => exact first
  | next _ computed ih => exact .next ih computed

theorem Extended.prefix (h : Extended request blockSize hashes hashes') : hashes <+: hashes' := by
  induction h with
  | start => exact List.prefix_refl _
  | next _ _ ih => exact ih.trans (List.prefix_append _ _)

theorem nextBlockHash_ok {n : ℕ} (computed : nextBlockHash request blockSize n prev = .ok h) :
    (n + 1) * blockSize ≤ request.allTokenIds.length ∧ ∃ extraKeys next,
      generateBlockHashExtraKeys request (n * blockSize) ((n + 1) * blockSize) (-1) = .ok (extraKeys, next) ∧
      h = hashBlockTokens prev (blockTokens blockSize request.allTokenIds n) extraKeys := by
  unfold nextBlockHash at computed
  dsimp only at computed
  have tokens : PySlice.slice request.allTokenIds ((n : ℤ) * blockSize) (((n : ℤ) + 1) * blockSize) =
      blockTokens blockSize request.allTokenIds n := by
    have sliced := PySlice.slice_add request.allTokenIds (n * blockSize) blockSize
    push_cast at sliced
    rw [blockTokens, ← sliced]
    congr 1
    ring
  rw [tokens] at computed
  split at computed
  · cases computed
  · rename_i full
    rw [not_not] at full
    constructor
    · rw [blockTokens, List.length_take, List.length_drop] at full
      rcases Nat.eq_zero_or_pos blockSize with none | positive
      · simp [none]
      · rw [Nat.succ_mul]
        omega
    · cases keys : generateBlockHashExtraKeys request (n * blockSize) ((n + 1) * blockSize) (-1) with
      | error raised =>
        rw [keys] at computed
        cases computed
      | ok found =>
        rw [keys] at computed
        cases computed
        exact ⟨found.1, found.2, rfl, rfl⟩

theorem Extended.isChain (h : Extended request blockSize hashes hashes')
    (chained : IsChain blockSize request.allTokenIds hashes) :
    IsChain blockSize request.allTokenIds hashes' := by
  induction h with
  | start => exact chained
  | next _ computed ih =>
    obtain ⟨inside, extraKeys, -, -, rfl⟩ := nextBlockHash_ok computed
    exact ih.snoc extraKeys inside

omit [TupleHash] in
theorem getElem?_of_prefix {α : Type} {xs ys : List α} {x : α} (longer : xs <+: ys)
    (found : xs[i]? = some x) : ys[i]? = some x := by
  obtain ⟨more, rfl⟩ := longer
  rw [List.getElem?_append_left (List.getElem?_eq_some_iff.mp found).1]
  exact found

omit [TupleHash] in
theorem lastValue_take {n : ℕ} (found : hashes[n]? = some h) :
    lastValue (hashes.take (n + 1)) = some h.hashValue := by
  rw [List.take_add_one, found, lastValue, Option.toList_some, List.getLast?_append]
  rfl

theorem blockHashAt_aligned {c : ℕ} {orig : List BlockHash} (older : orig <+: hashes) (length : hashes.length = max orig.length (c + i))
    (last : prev = lastValue (hashes.take (c + i)))
    (found : blockHashAt request blockSize c (orig.drop c) i prev hashes = .ok (h, hashes')) :
    Extended request blockSize hashes hashes' ∧ hashes'[c + i]? = some h ∧
      hashes'.length = max orig.length (c + (i + 1)) := by
  unfold blockHashAt at found
  rw [List.getElem?_drop] at found
  cases known : orig[c + i]? with
  | some h' =>
    rw [known] at found
    cases found
    have inside := (List.getElem?_eq_some_iff.mp known).1
    refine ⟨.start, getElem?_of_prefix older known, ?_⟩
    omega
  | none =>
    rw [known] at found
    have outside := List.getElem?_eq_none_iff.mp known
    have all : hashes.take (c + i) = hashes := List.take_of_length_le (by omega)
    have here : hashes.length = c + i := by omega
    rw [all] at last
    cases next : nextBlockHash request blockSize ((c : ℤ) + i) prev with
    | error raised =>
      rw [next] at found
      cases found
    | ok h' =>
      rw [next] at found
      cases found
      have computed : nextBlockHash request blockSize hashes.length (lastValue hashes) = .ok h := by
        rw [here, ← last]
        push_cast
        exact next
      refine ⟨.next .start computed, ?_, ?_⟩
      · rw [← here, List.getElem?_concat_length]
      · rw [List.length_append, List.length_singleton]
        omega

/-- From the `i`-th new block on; the hashes before it are `orig` and those appended since. -/
theorem cacheLoop_aligned {c : ℕ} {orig : List BlockHash} (indexed : s.Indexed) (caching : s.enableCaching = true)
    (known : ∀ b ∈ blocks, b < s.numGpuBlocks) (older : orig <+: hashes)
    (length : hashes.length = max orig.length (c + i)) (last : prev = lastValue (hashes.take (c + i)))
    (call : cacheLoop request blockSize c (orig.drop c) i blocks prev hashes s = .ok hashes' t) :
    Extended request blockSize hashes hashes' ∧
      ∀ j b, blocks[j]? = some b → ∃ h, t.hashOf b = some h ∧ hashes'[c + i + j]? = some h := by
  induction blocks generalizing s i prev hashes with
  | nil =>
    cases call
    exact ⟨.start, by simp⟩
  | cons b rest ih =>
    unfold cacheLoop at call
    rw [get_bind] at call
    obtain ⟨_, v, checked, call⟩ := bind_ok call
    obtain ⟨fresh, rfl⟩ := check_ok checked
    cases found : blockHashAt request blockSize c (orig.drop c) i prev hashes with
    | error raised =>
      rw [found] at call
      cases call
    | ok known' =>
      obtain ⟨h, hashes₁⟩ := known'
      rw [found] at call
      dsimp only at call
      rw [modify_bind] at call
      obtain ⟨indexed₁, hashOf₁, -⟩ := indexed.enter (h := h) (known b List.mem_cons_self) caching fresh
      have knownRest : ∀ d ∈ rest, d < (enter h b s).numGpuBlocks := fun d member =>
        known d (List.mem_cons_of_mem b member)
      obtain ⟨extended, here, length₁⟩ := blockHashAt_aligned older length last found
      have last₁ := (lastValue_take here).symm
      obtain ⟨extendedRest, others⟩ := ih indexed₁ caching knownRest (older.trans extended.prefix) length₁
        last₁ call
      obtain ⟨hashed, -⟩ := cacheLoop_hashed indexed₁ caching knownRest call
      refine ⟨extended.trans extendedRest, ?_⟩
      intro j d at_
      cases j with
      | zero =>
        rw [List.getElem?_cons_zero, Option.some.injEq] at at_
        subst at_
        have mine : (enter h b s).hashOf b = some h := by
          rw [hashOf₁, Function.update_self]
        refine ⟨h, ?_, ?_⟩
        · rw [hashed.kept b (by rw [mine]; nofun), mine]
        · exact getElem?_of_prefix extendedRest.prefix here
      | succ j =>
        rw [List.getElem?_cons_succ] at at_
        have there := others j d at_
        rw [show c + i + (j + 1) = c + (i + 1) + j by omega]
        exact there

/-- Block `i` of the request gets the `i`-th hash, when the block before the first new one has. -/
theorem cacheFullBlocks_aligned {c f : ℕ}
    (indexed : s.Indexed) (caching : s.enableCaching = true) (known : ∀ b ∈ blocks, b < s.numGpuBlocks)
    (aligned : ∀ (i : ℕ) b h, blocks[i]? = some b → s.hashOf b = some h → hashes[i]? = some h)
    (call : cacheFullBlocks request blocks hashes c f blockSize s = .ok hashes' t) :
    Extended request blockSize hashes hashes' ∧
      ∀ (i : ℕ) b, c ≤ i → i < f → blocks[i]? = some b → ∃ h, t.hashOf b = some h ∧ hashes'[i]? = some h := by
  unfold cacheFullBlocks at call
  split at call
  · rename_i same
    cases call
    refine ⟨.start, fun i b from_ to_ => ?_⟩
    omega
  · obtain ⟨_, v, checked, call⟩ := bind_ok call
    obtain ⟨enough, rfl⟩ := check_ok checked
    dsimp only at call
    obtain ⟨prev, v, read, loop⟩ := bind_ok call
    obtain ⟨before, rfl⟩ := prevHashValue_ok read
    rw [PySlice.sliceFrom_nat, PySlice.slice_nat] at loop
    have last : prev = lastValue (hashes.take (c + 0)) := by
      rcases before with ⟨none, rfl⟩ | ⟨some, b, h, at_, hash, rfl⟩
      · have zero : c = 0 := by omega
        subst zero
        rfl
      · obtain ⟨d, rfl⟩ : ∃ d, c = d + 1 := ⟨c - 1, by omega⟩
        rw [show (((d + 1 : ℕ) : ℤ) - 1) = (d : ℕ) by omega, PySlice.get?_nat] at at_
        exact (lastValue_take (aligned d b h at_ hash)).symm
    obtain ⟨extended, each⟩ := cacheLoop_aligned indexed caching
      (fun b member => known b (List.mem_of_mem_take (List.mem_of_mem_drop member)))
      (List.prefix_refl hashes) (by omega) last loop
    refine ⟨extended, fun i b from_ to_ at_ => ?_⟩
    have there := each (i - c) b
    rw [List.getElem?_drop, List.getElem?_take, show c + (i - c) = i by omega, if_pos to_] at there
    rw [show c + 0 + (i - c) = i by omega] at there
    exact there at_

end BlockPool
end Vllm.V1
