import VllmProofs.Evictor.LruMlEvict

/-!
Runs of `LRUMLEvictor`. The invariant of the index holds after every call that returns, so `evict`
is right about its victim throughout, and right about the hash exactly while no record of an
earlier content of the victim block is taken first.
-/

namespace Vllm.Evictor.LRUMLEvictor
open Exec

variable [Numpy]

inductive Op where
  | add (blockId : BlockId) (contentHash : PrefixHash) (numHashedTokens : ℕ) (lastAccessed : Time)
      (cacheHint : Option CacheHint)
  | update (blockId : BlockId) (lastAccessed : Time) (cacheHint : Option CacheHint)
  | remove (blockId : BlockId)
  | evict
  | observe (contentHash : PrefixHash) (cacheHint : Option CacheHint) (realHit : Option Bool)

def call : Op → Method LRUMLEvictor Unit
  | .add b h n t hint => add b h n t hint
  | .update b t hint => update b t hint
  | .remove b => remove b
  | .evict => do let _ ← evict
  | .observe h hint hit => observeCacheAccess h hint hit

/-- A call of a run returns. One that raises for a block that is not there changes nothing, and
runs leave it out. -/
def Step (s : LRUMLEvictor) (op : Op) (t : LRUMLEvictor) : Prop := call op s = .ok () t

omit [Numpy] in
/-- The content hash the block was most recently added with, in a history latest first. -/
def lastAdded (blockId : BlockId) : List Op → Option PrefixHash
  | [] => none
  | .add b h _ _ _ :: rest => if b = blockId then some h else lastAdded blockId rest
  | _ :: rest => lastAdded blockId rest

/-! ### What a call that returns has done -/

variable {h : PrefixHash}

section
variable {s t u : LRUMLEvictor} {b : BlockId} {hint : Option CacheHint}

omit [Numpy] in
theorem removeFromSortedDict_index (call : removeFromSortedDict b s = .ok () u) :
    ∃ d, u = { s with sortedDict := d } := by
  rw [removeFromSortedDict, get_bind] at call
  cases found : s.freeTable.get? b with
  | none =>
    rw [found] at call
    cases call
  | some block =>
    rw [found] at call
    by_cases filed : s.sortedDict.contains (block.scoreKey b) = true
    · simp only [if_pos filed] at call
      cases call
      exact ⟨_, rfl⟩
    · simp only [if_neg filed] at call
      cases call

theorem refreshIfDue_cases (called : refreshIfDue s = .ok () u) :
    u = { s with clock := { s.clock with reads := s.clock.reads + 1 } } ∨ ∃ v w survival records,
      rebuildSortedDict { s with clock := { s.clock with reads := s.clock.reads + 1 } } = .ok () v ∧
      w = { v with
        clock := { v.clock with reads := v.clock.reads + 1 }
        lastRefreshTime := v.clock.readings v.clock.reads } ∧
      survivalList w.freeTable.items w = .ok survival w ∧
      markOutdated (survival.insertionSort fun x y =>
        (toLex (x.2.2, x.2.1) : Time ×ₗ ℤ) ≤ toLex (y.2.2, y.2.1)) w = .ok () u ∧
      u = { w with toDeleteBlocks := records } := by
  obtain ⟨now, v, timed, called⟩ := bind_ok called
  obtain ⟨rfl, rfl⟩ := ml_time_ok timed
  rw [get_bind] at called
  split at called
  · obtain ⟨_, v, rebuilt, called⟩ := bind_ok called
    obtain ⟨now', w, timed', called⟩ := bind_ok called
    obtain ⟨rfl, rfl⟩ := ml_time_ok timed'
    rw [modify_bind, get_bind] at called
    obtain ⟨survival, x, listed, called⟩ := bind_ok called
    obtain rfl := survivalList_ok listed
    obtain ⟨records, marked⟩ := markOutdated_ok called
    exact Or.inr ⟨v, _, survival, records, rebuilt, rfl, listed, called, marked⟩
  · obtain ⟨-, rfl⟩ := pure_ok called
    exact Or.inl rfl

theorem add_cases {n : ℕ} {time : Time} (called : add b h n time hint s = .ok () u) :
    ∃ hint' score v w, bindSchedulerPolicy s.scheduler hint s = .ok hint' s ∧
      calcScore b time hint' (prepare b h time (getPolicy s.scheduler hint') s) = .ok score v ∧
      recordLastAccess hint' time (insertBlock b ⟨h, n, time, hint', score⟩ v) = .ok () w ∧
      refreshIfDue w = .ok () u := by
  rw [add, get_bind] at called
  obtain ⟨hint', v, bound, called⟩ := bind_ok called
  obtain ⟨rfl, -⟩ := bindSchedulerPolicy_ok bound
  rw [modify_bind] at called
  obtain ⟨score, w, scored, called⟩ := bind_ok called
  rw [modify_bind] at called
  obtain ⟨_, x, recorded, called⟩ := bind_ok called
  exact ⟨hint', score, w, x, bound, scored, recorded, called⟩

theorem update_cases {time : Time} (called : update b time hint s = .ok () u) :
    ∃ block hint' d v score w, s.freeTable.get? b = some block ∧
      bindSchedulerPolicy s.scheduler hint s = .ok hint' s ∧
      removeFromSortedDict b s = .ok () { s with sortedDict := d } ∧
      touch b (getPolicy s.scheduler hint') { s with sortedDict := d } = .ok () v ∧
      calcScore b time hint' v = .ok score w ∧
      recordLastAccess hint' time
        (insertBlock b { block with lastAccessed := time, cacheHint := hint', score } w) = .ok () u := by
  rw [update, get_bind] at called
  cases resident : s.freeTable.get? b with
  | none =>
    rw [resident] at called
    cases called
  | some block =>
    simp only [resident] at called
    obtain ⟨hint', v, bound, called⟩ := bind_ok called
    obtain ⟨rfl, -⟩ := bindSchedulerPolicy_ok bound
    obtain ⟨_, w, removed, called⟩ := bind_ok called
    obtain ⟨d, rfl⟩ := removeFromSortedDict_index removed
    obtain ⟨_, w, touched, called⟩ := bind_ok called
    obtain ⟨score, x, scored, called⟩ := bind_ok called
    rw [modify_bind] at called
    exact ⟨block, hint', d, w, score, x, rfl, bound, removed, touched, scored, called⟩

omit [Numpy] in
theorem release_frame (b : BlockId) (h : PrefixHash) (policy : Policy) (s : LRUMLEvictor) :
    Frame s (release b h policy s) := by
  unfold release
  split_ifs <;> exact ⟨rfl, rfl, rfl, rfl⟩

omit [Numpy] in
theorem remove_cases (called : remove b s = .ok () u) : ∃ block d, s.freeTable.get? b = some block ∧
      u = { release b block.contentHash (getPolicy s.scheduler block.cacheHint) s with
        freeTable := s.freeTable.erase b, sortedDict := d } := by
  rw [remove, get_bind] at called
  cases resident : s.freeTable.get? b with
  | none =>
    rw [resident] at called
    cases called
  | some block =>
    simp only [resident, modify_bind] at called
    obtain ⟨_, v, removed, called⟩ := bind_ok called
    obtain ⟨d, rfl⟩ := removeFromSortedDict_index removed
    cases called
    refine ⟨block, d, rfl, ?_⟩
    rw [(release_frame b block.contentHash (getPolicy s.scheduler block.cacheHint) s).table]

theorem observe_cases {hit : Option Bool} (called : observeCacheAccess h hint hit s = .ok () u) :
    (∃ scheduler clock, s.scheduler.enabled = true ∧
      EvictionPolicyScheduler.observe h hint hit (s.scheduler, s.clock) = .ok false (scheduler, clock) ∧
      u = { s with scheduler, clock }) ∨
    (∃ scheduler clock, s.scheduler.enabled = true ∧
      EvictionPolicyScheduler.observe h hint hit (s.scheduler, s.clock) = .ok true (scheduler, clock) ∧
      rebindSchedulerPolicyForExistingBlocks { s with scheduler, clock } = .ok () u) ∨
    pdpObserve h hit s = .ok () u ∨ u = s := by
  rw [observeCacheAccess, get_bind] at called
  split at called
  · rename_i monitoring
    have enabled := (Bool.and_eq_true_iff.mp monitoring).1
    obtain ⟨finalizedNow, v, onScheduler, called⟩ := bind_ok called
    obtain ⟨⟨scheduler, clock⟩, observed, rfl⟩ := zoom_ok onScheduler
    cases finalizedNow with
    | false => exact Or.inl ⟨scheduler, clock, enabled, observed, (pure_ok called).2.symm⟩
    | true => exact Or.inr (Or.inl ⟨scheduler, clock, enabled, observed, called⟩)
  · split at called
    · exact Or.inr (Or.inr (Or.inl called))
    · exact Or.inr (Or.inr (Or.inr (pure_ok called).2.symm))

theorem evict_of_call (called : call .evict s = .ok () u) : ∃ victim, evict s = .ok victim u := by
  obtain ⟨victim, v, evicted, done⟩ := bind_ok (show (evict >>= fun _ => pure ()) s = _ from called)
  obtain ⟨-, rfl⟩ := pure_ok done
  exact ⟨victim, evicted⟩

end

/-! ### The invariant survives each call -/

omit [Numpy] in
/-- `prepare` keeps to the per-policy metadata. -/
theorem prepare_frame (b : BlockId) (h : PrefixHash) (t : Time) (policy : Policy)
    (s : LRUMLEvictor) :
    (prepare b h t policy s).freeTable = s.freeTable ∧
    (prepare b h t policy s).sortedDict = s.sortedDict ∧
    (prepare b h t policy s).scheduler = s.scheduler := by
  unfold prepare seedFirstAccess seedPdp seedRrip
  split_ifs <;> exact ⟨rfl, rfl, rfl⟩

variable {s : LRUMLEvictor}

omit [Numpy] in
theorem prepare_firstAccess (b : BlockId) (h : PrefixHash) (t : Time) (policy : Policy) (c : BlockId) (known : (s.idToFirstAccess.get? c).isSome) :
    ((prepare b h t policy s).idToFirstAccess.get? c).isSome := by
  have same : (seedPdp b h policy (seedRrip b policy s)).idToFirstAccess = s.idToFirstAccess := by
    unfold seedPdp seedRrip
    split_ifs <;> rfl
  simp only [prepare, seedFirstAccess, same]
  split
  · rwa [same]
  · rw [Dict.get?_insert]
    split
    · rfl
    · exact known

variable {b : BlockId}

omit [Numpy] in
theorem insertBlock_inv {t : LRUMLEvictor} (block : BlockMetaData) (inv : Inv s)
    (table : t.freeTable = s.freeTable) (indexed : Indexed (s.freeTable.erase b) t.sortedDict)
    (scheduler : t.scheduler = s.scheduler)
    (first : ∀ c, (s.idToFirstAccess.get? c).isSome → (t.idToFirstAccess.get? c).isSome)
    (scorable : Scorable t.scheduler t.idToFirstAccess b block.cacheHint)
    (bound : s.scheduler.enabled = true → Bound block.cacheHint) : Inv (insertBlock b block t) := by
  refine ⟨?_, ?_, ?_⟩
  · simp only [insertBlock, table]
    exact indexed_insert block indexed
  · intro c other found
    simp only [insertBlock, table, Dict.get?_insert] at found ⊢
    split at found
    · rename_i same
      cases found
      rwa [same]
    · rw [scheduler]
      exact scorable_mono (first c) (inv.scorable c other found)
  · intro enabled c other found
    simp only [insertBlock, table, scheduler, Dict.get?_insert] at found enabled
    split at found
    · cases found
      exact bound enabled
    · exact inv.bound enabled c other found

variable {u : LRUMLEvictor}

theorem refreshIfDue_ok (inv : Inv s)
    (called : refreshIfDue s = .ok () u) : Inv u ∧ Rescored s.freeTable u.freeTable := by
  obtain ⟨now, v, timed, called⟩ := bind_ok called
  obtain ⟨rfl, rfl⟩ := ml_time_ok timed
  rw [get_bind] at called
  split at called
  · obtain ⟨table, d, clock, last, records, rfl, rescored, indexed⟩ := refresh_ok called
    exact ⟨⟨indexed, scorable_rescored (s := s) rescored inv.scorable,
      fun enabled => bound_rescored rescored (inv.bound enabled)⟩, rescored⟩
  · obtain ⟨-, rfl⟩ := pure_ok called
    exact ⟨⟨inv.indexed, inv.scorable, inv.bound⟩, .refl _⟩

variable {hint : Option CacheHint}

/-- After `add` the block is resident under its new hash; the others are at most scored anew. -/
theorem add_ok {n : ℕ} {t : Time} (inv : Inv s) (called : add b h n t hint s = .ok () u) :
    Inv u ∧ ∃ hint score, Rescored (s.freeTable.insert b ⟨h, n, t, hint, score⟩) u.freeTable := by
  obtain ⟨hint', score, v, x, bound, scored, recorded, called⟩ := add_cases called
  obtain ⟨-, bound⟩ := bindSchedulerPolicy_ok bound
  obtain ⟨table, index, scheduler⟩ := prepare_frame b h t (getPolicy s.scheduler hint') s
  have first c := prepare_firstAccess b h t (getPolicy s.scheduler hint') (s := s) c
  generalize prepare b h t (getPolicy s.scheduler hint') s = w at scored table index scheduler first
  obtain ⟨scorable, clock, rfl⟩ := calcScore_ok scored
  have recorded := recordLastAccess_frame recorded
  have filed := insertBlock_inv (t := { w with clock }) ⟨h, n, t, hint', score⟩ inv table
    (by simp only [index]; exact indexed_erase_stale inv.indexed b) scheduler first scorable bound
  obtain ⟨refreshed, rescored⟩ := refreshIfDue_ok (filed.frame recorded) called
  rw [recorded.table] at rescored
  exact ⟨refreshed, hint', score, by simpa [insertBlock, table] using rescored⟩

omit [Numpy] in
theorem protectedNow_frame (b : BlockId) (reused : Bool) (s : LRUMLEvictor) :
    Frame s (protectedNow b reused s) := by
  unfold protectedNow
  split <;> exact ⟨rfl, rfl, rfl, rfl⟩

omit [Numpy] in
theorem touch_frame {policy : Policy} (called : touch b policy s = .ok () u) : Frame s u := by
  by_cases rrip : policy = .rrip
  · rw [touch, if_pos rrip] at called
    cases called
    exact ⟨rfl, rfl, rfl, rfl⟩
  · by_cases pdp : policy = .pdp
    · rw [touch, if_neg rrip, if_pos pdp] at called
      cases called
      exact protectedNow_frame b true s
    · rw [touch, if_neg rrip, if_neg pdp] at called
      cases called
      exact ⟨rfl, rfl, rfl, rfl⟩

theorem update_ok {t : Time} (inv : Inv s) (called : update b t hint s = .ok () u) :
    Inv u ∧ ∃ block hint score, s.freeTable.get? b = some block ∧
      u.freeTable = s.freeTable.insert b ⟨block.contentHash, block.numHashedTokens, t, hint, score⟩ := by
  obtain ⟨block, hint', d, w, score, x, resident, bound, removed, touched, scored, called⟩ :=
    update_cases called
  obtain ⟨-, bound⟩ := bindSchedulerPolicy_ok bound
  cases removed.symm.trans (removeFromSortedDict_ok inv.indexed resident)
  obtain ⟨table, index, scheduler, first⟩ := touch_frame touched
  obtain ⟨scorable, clock, rfl⟩ := calcScore_ok scored
  have recorded := recordLastAccess_frame called
  have filed := insertBlock_inv (t := { w with clock })
    ⟨block.contentHash, block.numHashedTokens, t, hint', score⟩ inv table
    (by simp only [index]; exact indexed_erase inv.indexed b block) scheduler
    (fun c known => by simpa [first] using known) scorable bound
  exact ⟨filed.frame recorded, block, hint', score, resident,
    by simp [recorded.table, insertBlock, table]⟩

omit [Numpy] in
theorem remove_ok {block : BlockMetaData} (inv : Inv s)
    (resident : s.freeTable.get? b = some block) :
    ∃ u, remove b s = .ok () u ∧ Inv u ∧ u.freeTable = s.freeTable.erase b := by
  obtain ⟨table, index, scheduler, first⟩ :=
    release_frame b block.contentHash (getPolicy s.scheduler block.cacheHint) s
  generalize isReleased : release b block.contentHash (getPolicy s.scheduler block.cacheHint) s = w
    at table index scheduler first
  have removed := removeFromSortedDict_ok (s := w) (by rw [table, index]; exact inv.indexed)
    (by rw [table]; exact resident)
  let u := { w with sortedDict := w.sortedDict.erase (block.scoreKey b)
                    freeTable := w.freeTable.erase b }
  refine ⟨u, ?_, ⟨?_, ?_, ?_⟩, ?_⟩
  · simp only [remove, get_bind, resident, modify_bind, isReleased, bind_of_ok removed, modify_apply]
    rfl
  · simp only [u, table, index]
    exact indexed_erase inv.indexed b block
  · intro c other found
    simp only [u, table, Dict.get?_erase] at found
    simp only [u, scheduler, first]
    split at found
    · cases found
    · exact inv.scorable c other found
  · intro enabled c other found
    simp only [u, table, Dict.get?_erase] at found
    simp only [u, scheduler] at enabled
    split at found
    · cases found
    · exact inv.bound enabled c other found
  · simp [u, table]

/-! ### Observing -/

omit [Numpy] in
theorem recordReuse_keeps (h : PrefixHash) : Keeps Frame (recordReuse h) := by
  refine .bind .get fun s => ?_
  split
  · exact .pure _
  · exact .bind (.bind .get fun _ => bucketed_keeps _ _) fun _ =>
      .modify fun _ => ⟨rfl, rfl, rfl, rfl⟩

omit [Numpy] in
theorem protectHolder_keeps (h : PrefixHash) (reused : Bool) :
    Keeps Frame (protectHolder h reused) := by
  refine .bind .get fun s => ?_
  split
  · exact .pure _
  · exact .ite (.modify fun s => protectedNow_frame _ reused s) (.pure _)

omit [Numpy] in
theorem pdpObserve_keeps (h : PrefixHash) (hit : Option Bool) : Keeps Frame (pdpObserve h hit) := by
  have recompute : Keeps Frame recomputeIfDue :=
    .bind .get fun _ => .bind (divides_keeps _ _) fun _ => .ite
      (.bind .get fun _ => .bind (bestProtectingDistance_keeps _ _ _ _) fun _ =>
        .modify fun _ => ⟨rfl, rfl, rfl, rfl⟩) (.pure _)
  exact .bind (.modify fun _ => ⟨rfl, rfl, rfl, rfl⟩) fun _ => .bind .get fun _ =>
    .bind (recordReuse_keeps h) fun _ => .bind (.modify fun _ => ⟨rfl, rfl, rfl, rfl⟩) fun _ =>
    .bind (protectHolder_keeps h _) fun _ => recompute

omit [Numpy] in
def SameHashes (old new : Dict BlockId BlockMetaData) : Prop :=
  ∀ b, (new.get? b).map BlockMetaData.contentHash = (old.get? b).map BlockMetaData.contentHash

omit [Numpy] in
theorem Rescored.sameHashes {old new : Dict BlockId BlockMetaData} (h : Rescored old new) :
    SameHashes old new := by
  intro b
  have same := congrArg (Option.map BlockMetaData.contentHash) (h b)
  simpa [Option.map_map, Function.comp_def, unscored] using same

omit [Numpy] in
theorem rebindBlock_frame (policy : Policy) (b : BlockId) (block : BlockMetaData) (hint : CacheHint)
    (s : LRUMLEvictor) :
    (rebindBlock policy b block hint s).freeTable =
      s.freeTable.insert b { block with cacheHint := some (hint.rebound policy) } ∧
    (rebindBlock policy b block hint s).sortedDict = s.sortedDict ∧
    (rebindBlock policy b block hint s).scheduler = s.scheduler := by
  unfold rebindBlock
  dsimp only
  split_ifs <;> exact ⟨rfl, rfl, rfl⟩

omit [Numpy] in
theorem rebindEach_ok {policy : Policy} {items : List (BlockId × BlockMetaData)} (nodup : (items.map Prod.fst).Nodup)
    (called : rebindEach policy items s = .ok () u) :
    u.scheduler = s.scheduler ∧
    (∀ b, b ∉ items.map Prod.fst → u.freeTable.get? b = s.freeTable.get? b) ∧
    ∀ b block, (b, block) ∈ items → ∃ hint : CacheHint, block.cacheHint = some hint ∧
      u.freeTable.get? b = some { block with cacheHint := some (hint.rebound policy) } := by
  induction items generalizing s with
  | nil =>
    obtain ⟨-, rfl⟩ := pure_ok called
    exact ⟨rfl, fun _ _ => rfl, by simp⟩
  | cons item rest ih =>
    obtain ⟨b, block⟩ := item
    simp only [List.map_cons, List.nodup_cons] at nodup
    cases hinted : block.cacheHint with
    | none => simp [rebindEach, hinted] at called
    | some hint =>
      simp only [rebindEach, hinted, modify_bind] at called
      obtain ⟨table, -, scheduler⟩ := rebindBlock_frame policy b block hint s
      obtain ⟨same, others, each⟩ := ih nodup.2 called
      refine ⟨same.trans scheduler, ?_, ?_⟩
      · intro c absent
        simp only [List.map_cons, List.mem_cons, not_or] at absent
        rw [others c absent.2, table, Dict.get?_insert_ne absent.1]
      · intro c other member
        rcases List.mem_cons.mp member with eq | later
        · cases eq
          exact ⟨hint, hinted, by rw [others _ nodup.1, table, Dict.get?_insert_self]⟩
        · exact each c other later

omit [Numpy] in
theorem rebound_ownPolicy (hint : CacheHint) (policy : Policy) :
    (hint.rebound policy).ownPolicy = some policy := by
  simp [CacheHint.ownPolicy, CacheHint.rebound, truthy]

omit [Numpy] in
theorem seed_frame (policy : Policy) (s : LRUMLEvictor) : Frame s (seed policy s) := by
  unfold seed
  dsimp only
  split_ifs <;> exact ⟨rfl, rfl, rfl, rfl⟩

/-- A block that the final policy has taken over. -/
def reboundTo (policy : Policy) (block : BlockMetaData) : BlockMetaData :=
  { block with cacheHint := block.cacheHint.map fun hint => hint.rebound policy }

theorem rebind_cases (called : rebindSchedulerPolicyForExistingBlocks s = .ok () u) :
    s.scheduler.enabled = false ∧ u = s ∨ s.scheduler.enabled = true ∧ ∃ v,
      rebindEach s.scheduler.currentPolicy s.freeTable.items (seed s.scheduler.currentPolicy s) = .ok () v ∧
      v.scheduler = s.scheduler ∧
      (∀ b, v.freeTable.get? b = (s.freeTable.get? b).map (reboundTo s.scheduler.currentPolicy)) ∧
      (∀ b block, s.freeTable.get? b = some block → ∃ hint, block.cacheHint = some hint) ∧
      rebuildSortedDict { v with toDeleteBlocks := [] } = .ok () u := by
  rw [rebindSchedulerPolicyForExistingBlocks, get_bind] at called
  cases enabled : s.scheduler.enabled with
  | false =>
    simp only [enabled, Bool.not_false, ↓reduceIte] at called
    exact Or.inl ⟨rfl, (pure_ok called).2.symm⟩
  | true =>
    simp only [enabled, Bool.not_true, Bool.false_eq_true, ↓reduceIte, modify_bind] at called
    obtain ⟨_, v, bound, called⟩ := bind_ok called
    rw [modify_bind] at called
    obtain ⟨scheduler, others, each⟩ := rebindEach_ok s.freeTable.nodup bound
    have seeded := seed_frame s.scheduler.currentPolicy s
    refine Or.inr ⟨rfl, v, bound, scheduler.trans seeded.scheduler, fun b => ?_, fun b block found => ?_, called⟩
    · cases old : s.freeTable.get? b with
      | none =>
        have absent : b ∉ s.freeTable.items.map Prod.fst := by
          intro member
          obtain ⟨held, present⟩ := Dict.mem_keys_iff.mp member
          rw [old] at present
          cases present
        rw [others b absent, seeded.table, old]
        rfl
      | some held =>
        obtain ⟨hint, hinted, new⟩ := each b held (Dict.mem_items_iff.mpr old)
        rw [new, Option.map_some, reboundTo, hinted]
        rfl
    · obtain ⟨hint, hinted, -⟩ := each b block (Dict.mem_items_iff.mpr found)
      exact ⟨hint, hinted⟩

theorem rebind_ok (inv : Inv s) (called : rebindSchedulerPolicyForExistingBlocks s = .ok () u) :
    Inv u ∧ SameHashes s.freeTable u.freeTable := by
  rcases rebind_cases called with ⟨-, rfl⟩ | ⟨-, v, -, -, table, hinted, called⟩
  · exact ⟨inv, fun _ => rfl⟩
  obtain ⟨scorable, new, d, clock, rfl, rescored, indexed⟩ := rebuildSortedDict_ok called
  have bounds : ∀ b block, v.freeTable.get? b = some block → Bound block.cacheHint := by
    intro b block found
    rw [table] at found
    obtain ⟨held, old, rfl⟩ := Option.map_eq_some_iff.mp found
    obtain ⟨hint, same⟩ := hinted b held old
    simp [Bound, reboundTo, same, rebound_ownPolicy]
  refine ⟨⟨indexed, scorable_rescored (s := v) rescored scorable,
    fun _ => bound_rescored rescored bounds⟩, fun b => ?_⟩
  rw [rescored.sameHashes b]
  simp only [table, Option.map_map]
  rfl

theorem observe_ok
    {hit : Option Bool} (inv : Inv s) (called : observeCacheAccess h hint hit s = .ok () u) :
    Inv u ∧ SameHashes s.freeTable u.freeTable := by
  -- the scheduler may change its policy, but the resident blocks are bound to their own
  have kept (enabled : s.scheduler.enabled = true) (scheduler : EvictionPolicyScheduler) (clock : Clock) :
      Inv { s with scheduler, clock } := by
    have bounds := inv.bound enabled
    exact ⟨inv.indexed, fun b block found => scorable_of_bound (bounds b block found)
      (inv.scorable b block found), fun _ => bounds⟩
  rcases observe_cases called with ⟨scheduler, clock, enabled, -, rfl⟩ |
    ⟨scheduler, clock, enabled, -, rebound⟩ | observed | rfl
  · exact ⟨kept enabled scheduler clock, fun _ => rfl⟩
  · exact rebind_ok (s := { s with scheduler, clock }) (kept enabled scheduler clock) rebound
  · have frame := pdpObserve_keeps h hit _ _ _ observed
    exact ⟨inv.frame frame, fun b => by rw [frame.table]⟩
  · exact ⟨inv, fun _ => rfl⟩

/-! ### No call misses an index entry -/

omit [Numpy] in
theorem scoreNotFound_foreign : Foreign scoreNotFound := by
  constructor <;> decide

theorem observe_avoids (h : PrefixHash) (hint : Option CacheHint) (hit : Option Bool) :
    Avoids scoreNotFound (observeCacheAccess h hint hit) := by
  have foreign := scoreNotFound_foreign
  have reuse : Avoids scoreNotFound (recordReuse h) := by
    refine .bind .get fun _ => ?_
    split
    · exact .pure _
    · exact .bind (.bind .get fun _ => bucketed_avoids foreign.zero) fun _ => .modify _
  have holder (reused : Bool) : Avoids scoreNotFound (protectHolder h reused) := by
    refine .bind .get fun _ => ?_
    split
    · exact .pure _
    · exact .ite (.modify _) (.pure _)
  have recompute : Avoids scoreNotFound recomputeIfDue :=
    .bind .get fun _ => .bind (divides_avoids foreign.zero) fun _ => .ite
      (.bind .get fun _ => .bind (bestProtectingDistance_avoids foreign.step) fun _ => .modify _)
      (.pure _)
  have observed : Avoids scoreNotFound (pdpObserve h hit) :=
    .bind (.modify _) fun _ => .bind .get fun _ => .bind reuse fun _ => .bind (.modify _) fun _ =>
      .bind (holder _) fun _ => recompute
  have each (policy : Policy) (items : List (BlockId × BlockMetaData)) :
      Avoids scoreNotFound (rebindEach policy items) := by
    induction items with
    | nil => exact .pure _
    | cons item rest ih =>
      obtain ⟨b, block⟩ := item
      simp only [rebindEach]
      split
      · exact .throw (by decide)
      · exact .bind (.modify _) fun _ => ih
  have rebound : Avoids scoreNotFound rebindSchedulerPolicyForExistingBlocks :=
    .bind .get fun _ => .ite (.pure _) <| .bind (.modify _) fun _ => .bind (each _ _) fun _ =>
      .bind (.modify _) fun _ => rebuildSortedDict_avoids foreign.key
  exact .bind .get fun _ => .ite
    (.bind (.zoom (EvictionPolicyScheduler.observe_avoids foreign h hint hit)) fun _ =>
      .ite rebound (.pure _))
    (.ite observed (.pure _))

theorem calcScore_avoids (b : BlockId) (t : Time) (hint : Option CacheHint) :
    Avoids scoreNotFound (calcScore b t hint) := by
  intro s u raised
  exact scoreNotFound_foreign.key (calcScore_error raised).symm

theorem add_avoids (b : BlockId) (h : PrefixHash) (n : ℕ) (t : Time) (hint : Option CacheHint) :
    Avoids scoreNotFound (add b h n t hint) := by
  have key := scoreNotFound_foreign.key
  have due : Avoids scoreNotFound refreshIfDue :=
    .bind ml_time_avoids fun _ => .bind .get fun _ => .ite (refresh_avoids key (by decide)) (.pure _)
  exact .bind .get fun _ => .bind (bindSchedulerPolicy_avoids (by decide) _ _) fun _ =>
    .bind (.modify _) fun _ => .bind (calcScore_avoids _ _ _) fun _ => .bind (.modify _) fun _ =>
    .bind (recordLastAccess_avoids key (by decide) _ _) fun _ => due

theorem update_finds (inv : Inv s) (b : BlockId) (t : Time)
    (hint : Option CacheHint) (u : LRUMLEvictor) : update b t hint s ≠ .error scoreNotFound u := by
  intro raised
  rw [update, get_bind] at raised
  cases resident : s.freeTable.get? b with
  | none =>
    simp only [resident, throw_apply, EStateM.Result.error.injEq] at raised
    exact absurd raised.1 (by decide)
  | some block =>
    simp only [resident] at raised
    have key := scoreNotFound_foreign.key
    rcases bind_error raised with early | ⟨hint', v, bound, raised⟩
    · exact bindSchedulerPolicy_avoids (by decide) _ _ _ _ early
    · obtain ⟨rfl, -⟩ := bindSchedulerPolicy_ok bound
      rw [bind_of_ok (removeFromSortedDict_ok inv.indexed resident)] at raised
      have touched (policy : Policy) : Avoids scoreNotFound (touch b policy) :=
        .ite (.modify _) (.ite (.modify _) (.pure _))
      exact Avoids.bind (touched _) (fun _ => .bind (calcScore_avoids b t hint') fun _ =>
        .bind (.modify _) fun _ => recordLastAccess_avoids key (by decide) _ _) _ _ raised

theorem call_finds (inv : Inv s) (numeric : Numeric s) (op : Op) (u : LRUMLEvictor) :
    call op s ≠ .error scoreNotFound u := by
  intro raised
  cases op with
  | add b h n t hint => exact add_avoids b h n t hint _ _ raised
  | update b t hint => exact update_finds inv b t hint u raised
  | observe h hint hit => exact observe_avoids h hint hit _ _ raised
  | remove b =>
    cases resident : s.freeTable.get? b with
    | none =>
      simp only [call, remove, get_bind, resident, throw_apply, EStateM.Result.error.injEq] at raised
      exact absurd raised.1 (by decide)
    | some block =>
      obtain ⟨v, removed, -⟩ := remove_ok inv resident
      rw [call, removed] at raised
      cases raised
  | evict =>
    by_cases empty : s.freeTable.size = 0
    · rw [call, bind_of_error (evict_empty empty)] at raised
      exact absurd (EStateM.Result.error.inj raised).1 (by decide)
    · obtain ⟨b, hash, block, t, evicted, -⟩ := evict_ok inv numeric empty
      rw [call, bind_of_ok evicted] at raised
      cases raised

/-! ### Runs -/

/-- The latest content hash of every resident block is the one in the table. -/
def Remembers (history : List Op) (s : LRUMLEvictor) : Prop :=
  ∀ b block, s.freeTable.get? b = some block → lastAdded b history = some block.contentHash

omit [Numpy] in
theorem Remembers.sameHashes {history : List Op}
    (same : SameHashes s.freeTable u.freeTable) (h : Remembers history s) : Remembers history u := by
  intro b block resident
  have eq := same b
  rw [resident] at eq
  cases old : s.freeTable.get? b with
  | none => simp [old] at eq
  | some held =>
    rw [old] at eq
    rw [h b held old]
    exact eq.symm

theorem call_inv {op : Op} (inv : Inv s) (numeric : Numeric s) (called : call op s = .ok () u) :
    Inv u := by
  cases op with
  | add b h n t hint => exact (add_ok inv (show add b h n t hint s = _ from called)).1
  | update b t hint => exact (update_ok inv (show update b t hint s = _ from called)).1
  | observe h hint hit =>
    exact (observe_ok inv (show observeCacheAccess h hint hit s = _ from called)).1
  | remove b =>
    obtain ⟨block, -, resident, -⟩ := remove_cases (show remove b s = _ from called)
    obtain ⟨v, removed, kept, -⟩ := remove_ok inv resident
    rw [call, removed] at called
    cases called
    exact kept
  | evict =>
    obtain ⟨victim, evicted⟩ := evict_of_call called
    by_cases empty : s.freeTable.size = 0
    · rw [evict_empty empty] at evicted
      cases evicted
    · obtain ⟨b, hash, block, t, again, -, -, -, kept⟩ := evict_ok inv numeric empty
      rw [again] at evicted
      cases evicted
      exact kept

theorem call_ok {op : Op} {history : List Op} (inv : Inv s) (numeric : Numeric s)
    (remembers : Remembers history s) (called : call op s = .ok () u) :
    Inv u ∧ Remembers (op :: history) u := by
  cases op with
  | add b h n t hint =>
    obtain ⟨kept, hint', score, rescored⟩ := add_ok inv called
    refine ⟨kept, fun c block resident => ?_⟩
    obtain ⟨held, found, same⟩ := rescored.resident resident
    rw [← (unscored_fields same).1]
    rw [Dict.get?_insert] at found
    split at found
    · rename_i eq
      cases found
      simp [lastAdded, eq]
    · rename_i different
      simpa [lastAdded, Ne.symm different] using remembers c held found
  | update b t hint =>
    obtain ⟨kept, block, hint', score, resident, table⟩ := update_ok inv called
    refine ⟨kept, fun c other found => ?_⟩
    rw [table, Dict.get?_insert] at found
    split at found
    · rename_i eq
      cases found
      subst eq
      simpa [lastAdded] using remembers c block resident
    · exact remembers c other found
  | remove b =>
    obtain ⟨block, -, resident, -⟩ := remove_cases (show remove b s = _ from called)
    obtain ⟨v, removed, kept, table⟩ := remove_ok inv resident
    rw [call, removed] at called
    cases called
    refine ⟨kept, fun c other found => ?_⟩
    rw [table, Dict.get?_erase] at found
    split at found
    · cases found
    · exact remembers c other found
  | evict =>
    by_cases empty : s.freeTable.size = 0
    · rw [call, bind_of_error (evict_empty empty)] at called
      cases called
    · obtain ⟨b, hash, block, t, evicted, -, -, rescored, kept⟩ := evict_ok inv numeric empty
      rw [call, bind_of_ok evicted] at called
      cases called
      refine ⟨kept, fun c other found => ?_⟩
      obtain ⟨held, left, same⟩ := rescored.resident found
      rw [← (unscored_fields same).1]
      rw [Dict.get?_erase] at left
      split at left
      · cases left
      · exact remembers c held left
  | observe h hint hit =>
    obtain ⟨kept, same⟩ := observe_ok inv called
    exact ⟨kept, fun c block found => remembers.sameHashes same c block found⟩

omit [Numpy] in
/-- `LRUMLEvictor.__init__`, whatever its configuration. -/
def init (scheduler : EvictionPolicyScheduler) (settings : PdpSettings) (lastRefreshTime : Time)
    (clock : Clock) : LRUMLEvictor :=
  { scheduler, settings, lastRefreshTime, clock }

omit [Numpy] in
theorem init_inv (scheduler : EvictionPolicyScheduler) (settings : PdpSettings)
    (lastRefreshTime : Time) (clock : Clock) :
    Inv (init scheduler settings lastRefreshTime clock) := by
  refine ⟨⟨?_, ?_⟩, ?_, ?_⟩
  · intro b block resident
    cases resident
  · intro item member
    cases member
  · intro b block resident
    cases resident
  · intro _ b block resident
    cases resident

/-- An `exp` for runs whose hints carry no prediction. -/
abbrev noPrediction : Numpy := ⟨fun _ => 1⟩

end Vllm.Evictor.LRUMLEvictor
