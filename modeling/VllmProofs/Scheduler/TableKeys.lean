import VllmProofs.Scheduler.Basic

/-!
Which sequences have a block table: `allocate` gives one to every waiting sequence of a group,
`free` takes one away, and nothing else the scheduler calls changes the set.
-/

namespace Vllm
open Exec Heaped

/-- What the scheduler's own bookkeeping needs to know of its block space manager. -/
class LawfulBlockSpaceManager (M : Type) [BlockSpaceManager M] where
  /-- The sequences that have a block table. -/
  tables : M → Set SeqId
  allocate : ∀ (g : SequenceGroup) (s : M), wp (BlockSpaceManager.allocate g)
    (fun _ t => tables t = tables s ∪ {id | id ∈ (g.getSeqs .waiting).map Sequence.seqId})
    (fun _ _ => True) s
  free : ∀ (seq : Sequence) (s : M), wp (BlockSpaceManager.free seq)
    (fun _ t => tables t = tables s \ {seq.seqId}) (fun _ _ => True) s
  canAllocate : ∀ g k, Fixes tables (BlockSpaceManager.canAllocate g k : Method M AllocStatus)
  canAppendSlots : ∀ g k, Fixes tables (BlockSpaceManager.canAppendSlots g k : Method M Bool)
  appendSlots : ∀ seq k, Fixes tables (BlockSpaceManager.appendSlots seq k : Method M _)
  canSwapIn : ∀ g k, Fixes tables (BlockSpaceManager.canSwapIn g k : Method M AllocStatus)
  swapIn : ∀ g, Fixes tables (BlockSpaceManager.swapIn g : Method M _)
  canSwapOut : ∀ g, Fixes tables (BlockSpaceManager.canSwapOut g : Method M Bool)
  swapOut : ∀ g, Fixes tables (BlockSpaceManager.swapOut g : Method M _)
  swapOutNothing : ∀ (g : SequenceGroup) (s : M), g.getSeqs .running = [] →
    wp (BlockSpaceManager.swapOut g) (fun mapping _ => mapping = []) (fun _ _ => True) s
  getBlockTable : ∀ seq, Fixes tables (BlockSpaceManager.getBlockTable seq : Method M _)
  accessAllBlocksInSeq : ∀ seq now,
    Fixes tables (BlockSpaceManager.accessAllBlocksInSeq seq now : Method M Unit)
  getCommonComputedBlockIds : ∀ seqs,
    Fixes tables (BlockSpaceManager.getCommonComputedBlockIds seqs : Method M _)
  markBlocksAsComputed : ∀ g n,
    Fixes tables (BlockSpaceManager.markBlocksAsComputed g n : Method M Unit)
  getNumCachedTokens : ∀ seq, Fixes tables (BlockSpaceManager.getNumCachedTokens seq : Method M ℕ)

structure Unaffected {M κ : Type} [BlockSpaceManager M] (kept : M → κ) : Prop where
  canAllocate : ∀ g k, Fixes kept (BlockSpaceManager.canAllocate g k : Method M AllocStatus)
  canAppendSlots : ∀ g k, Fixes kept (BlockSpaceManager.canAppendSlots g k : Method M Bool)
  appendSlots : ∀ seq k, Fixes kept (BlockSpaceManager.appendSlots seq k : Method M _)
  canSwapIn : ∀ g k, Fixes kept (BlockSpaceManager.canSwapIn g k : Method M AllocStatus)
  swapIn : ∀ g, Fixes kept (BlockSpaceManager.swapIn g : Method M _)
  canSwapOut : ∀ g, Fixes kept (BlockSpaceManager.canSwapOut g : Method M Bool)
  swapOut : ∀ g, Fixes kept (BlockSpaceManager.swapOut g : Method M _)
  getBlockTable : ∀ seq, Fixes kept (BlockSpaceManager.getBlockTable seq : Method M _)
  accessAllBlocksInSeq : ∀ seq now,
    Fixes kept (BlockSpaceManager.accessAllBlocksInSeq seq now : Method M Unit)
  markBlocksAsComputed : ∀ g n, Fixes kept (BlockSpaceManager.markBlocksAsComputed g n : Method M Unit)

theorem LawfulBlockSpaceManager.unaffected {M : Type} [BlockSpaceManager M] [LawfulBlockSpaceManager M] :
    Unaffected (tables : M → Set SeqId) where
  canAllocate := canAllocate
  canAppendSlots := canAppendSlots
  appendSlots := appendSlots
  canSwapIn := canSwapIn
  swapIn := swapIn
  canSwapOut := canSwapOut
  swapOut := swapOut
  getBlockTable := getBlockTable
  accessAllBlocksInSeq := accessAllBlocksInSeq
  markBlocksAsComputed := markBlocksAsComputed

namespace SelfAttnBlockSpaceManager

variable {α β : Type}

def tableKeys (s : Heaped (SelfAttnBlockSpaceManager α)) : Set SeqId :=
  {id | s.self.blockTables.contains id = true}

theorem contains_insert (d : Dict SeqId BlockTable) (id id' : SeqId) (table : BlockTable) :
    (d.insert id table).contains id' = true ↔ id' = id ∨ d.contains id' = true := by
  by_cases same : id' = id <;> simp [Dict.contains, Dict.get?_insert, same]

theorem onAllocator_keys (method : Method (Heaped (CpuGpuBlockAllocator α)) β) :
    Fixes tableKeys (onAllocator method) := .apart method fun _ _ => rfl

theorem onComputedBlocks_keys
    (method : Method (Tracking ComputedBlocksTracker (CpuGpuBlockAllocator α)) β) :
    Fixes tableKeys (onComputedBlocks method) := .apart method fun _ _ => rfl

theorem onLastAccess_keys
    (method : Method (Tracking LastAccessBlocksTracker (CpuGpuBlockAllocator α)) β) :
    Fixes tableKeys (onLastAccess method) := .apart method fun _ _ => rfl

theorem tableOf_wp (id : SeqId) (s : Heaped (SelfAttnBlockSpaceManager α)) :
    wp (tableOf id) (fun table t => t = s ∧ s.self.blockTables.get? id = some table)
      (fun _ _ => True) s := by
  unfold tableOf
  rw [wp_bind, wp_get]
  cases found : s.self.blockTables.get? id with
  | none => trivial
  | some table => exact ⟨rfl, rfl⟩

theorem setTable_wp (id : SeqId) (table : BlockTable) (s : Heaped (SelfAttnBlockSpaceManager α)) :
    wp (setTable id table) (fun _ t => tableKeys t = tableKeys s ∪ {id}) (fun _ _ => True) s := by
  show _ = _
  ext id'
  have found := contains_insert s.self.blockTables id id' table
  simp only [tableKeys, Set.mem_ofPred_eq, Set.mem_union, Set.mem_singleton_iff, found]
  tauto

theorem onTable_keys (id : SeqId) (method : Method (Heaped (Tabled α)) β) :
    Fixes tableKeys (onTable id method) := by
  intro s a t call
  unfold onTable at call
  obtain ⟨table, u, first, second⟩ := bind_ok call
  obtain ⟨rfl, found⟩ := (tableOf_wp id s).ok first
  obtain ⟨v, -, rfl⟩ := zoom_ok second
  ext id'
  have inserted := contains_insert u.self.blockTables id id' v.self.table
  have present : u.self.blockTables.contains id = true := Dict.contains_iff.mpr ⟨table, found⟩
  show (u.self.blockTables.insert id v.self.table).contains id' = true ↔ _
  rw [inserted]
  constructor
  · rintro (rfl | old)
    · exact present
    · exact old
  · exact Or.inr

theorem withTable_keys (table : BlockTable) (method : Method (Heaped (Tabled α)) β) :
    Fixes tableKeys (withTable table method) := .apart _ fun _ _ => rfl

variable [BlockAllocator α]

theorem allocateSequence_keys (seq : Sequence) : Fixes tableKeys
      (allocateSequence seq : Method (Heaped (SelfAttnBlockSpaceManager α)) BlockTable) :=
  Keeps.bind Keeps.get fun _ => Keeps.ite (Keeps.pure _) (withTable_keys _ _)

theorem allocateFork_wp (first seq : Sequence) (s : Heaped (SelfAttnBlockSpaceManager α)) :
    wp (allocateFork first seq) (fun _ t => tableKeys t = tableKeys s ∪ {seq.seqId})
      (fun _ _ => True) s := by
  unfold allocateFork
  rw [wp_bind]
  refine ((onTable_keys first.seqId _).wp s).mono (fun forked t same => ?_) fun _ _ _ => trivial
  rw [wp_bind]
  refine (setTable_wp seq.seqId forked t).mono (fun _ u added => ?_) fun _ _ _ => trivial
  refine ((onLastAccess_keys _).wp u).mono (fun _ v tracked => ?_) fun _ _ _ => trivial
  rw [tracked, added, same]

theorem allocate_wp (g : SequenceGroup) (s : Heaped (SelfAttnBlockSpaceManager α)) : wp (allocate g)
      (fun _ t => tableKeys t = tableKeys s ∪ {id | id ∈ (g.getSeqs .waiting).map Sequence.seqId})
      (fun _ _ => True) s := by
  unfold allocate
  simp only [wp_bind, wp_get, wp_assertThat]
  refine ⟨fun _ => ?_, fun _ => trivial⟩
  cases g.getSeqs .waiting with
  | nil => trivial
  | cons seq rest =>
    simp only [wp_bind]
    refine ((allocateSequence_keys seq).wp s).mono (fun table t same => ?_) fun _ _ _ => trivial
    refine (setTable_wp seq.seqId table t).mono (fun _ u added => ?_) fun _ _ _ => trivial
    refine ((onLastAccess_keys _).wp u).mono (fun _ v tracked => ?_) fun _ _ _ => trivial
    have begun : tableKeys v = tableKeys s ∪ {seq.seqId} := by rw [tracked, added, same]
    refine (wp_forM (E := fun _ _ => True) (I := fun done w => tableKeys w =
      tableKeys v ∪ {id | id ∈ done.map Sequence.seqId}) (by simp) ?_).mono ?_ fun _ _ _ => trivial
    · intro done a more w _ before
      refine (allocateFork_wp seq a w).mono (fun _ x forked => ?_) fun _ _ _ => trivial
      rw [forked, before, Set.union_assoc]
      congr 1
      ext id
      simp only [List.map_append, List.mem_append, Set.mem_union, Set.mem_ofPred_eq, List.map_cons,
        List.map_nil, List.mem_singleton, Set.mem_singleton_iff]
    · intro _ w all
      rw [all, begun, Set.union_assoc]
      congr 1
      ext id
      simp only [Set.mem_union, Set.mem_ofPred_eq, List.map_cons, List.mem_cons,
        Set.mem_singleton_iff]

theorem free_wp (seq : Sequence) (s : Heaped (SelfAttnBlockSpaceManager α)) :
    wp (free seq) (fun _ t => tableKeys t = tableKeys s \ {seq.seqId}) (fun _ _ => True) s := by
  unfold free
  rw [wp_bind, wp_get]
  cases found : s.self.blockTables.get? seq.seqId with
  | none =>
    have absent : seq.seqId ∉ tableKeys s := by simp [tableKeys, Dict.contains, found]
    exact (Set.sdiff_singleton_eq_self absent).symm
  | some table =>
    simp only [wp_bind]
    refine ((onLastAccess_keys _).wp s).mono (fun _ t first => ?_) fun _ _ _ => trivial
    refine ((onTable_keys seq.seqId _).wp t).mono (fun _ u second => ?_) fun _ _ _ => trivial
    rw [wp_modify]
    refine ((onLastAccess_keys _).wp _).mono (fun _ v third => ?_) fun _ _ _ => trivial
    refine ((onComputedBlocks_keys _).wp _).mono (fun _ w fourth => ?_) fun _ _ _ => trivial
    rw [fourth, third, ← first, ← second]
    ext id
    show (u.self.blockTables.erase seq.seqId).contains id = true ↔ _
    by_cases same : id = seq.seqId <;> simp [tableKeys, Dict.contains, Dict.get?_erase, same]

structure Overlooks {κ : Type} (view : Heaped (SelfAttnBlockSpaceManager α) → κ) : Prop where
  allocator : ∀ {β : Type} (method : Method (Heaped (CpuGpuBlockAllocator α)) β),
    Fixes view (onAllocator method)
  lastAccess : ∀ {β : Type} (method : Method (Tracking LastAccessBlocksTracker (CpuGpuBlockAllocator α)) β),
    Fixes view (onLastAccess method)
  table : ∀ {β : Type} (id : SeqId) (method : Method (Heaped (Tabled α)) β), Fixes view (onTable id method)

omit [BlockAllocator α] in
theorem overlooks_keys : Overlooks (tableKeys : Heaped (SelfAttnBlockSpaceManager α) → Set SeqId) where
  allocator := onAllocator_keys
  lastAccess := onLastAccess_keys
  table := onTable_keys

section
variable {κ : Type} {view : Heaped (SelfAttnBlockSpaceManager α) → κ}

omit [BlockAllocator α] in
theorem tableOf_fixes (id : SeqId) :
    Fixes view (tableOf id : Method (Heaped (SelfAttnBlockSpaceManager α)) BlockTable) := by
  intro s table t call
  rw [((tableOf_wp id s).ok call).1]

omit [BlockAllocator α] in
theorem numTouchedBlocks_fixes (k : ℕ) (seqs : List Sequence) :
    Fixes view (numTouchedBlocks k seqs : Method (Heaped (SelfAttnBlockSpaceManager α)) ℤ) := by
  induction seqs with
  | nil => exact Keeps.pure _
  | cons seq rest ih =>
    exact Keeps.bind (tableOf_fixes _) fun _ => Keeps.bind ih fun _ => Keeps.pure _

omit [BlockAllocator α] in
theorem blocksOf_fixes (seqs : List Sequence) :
    Fixes view (blocksOf seqs : Method (Heaped (SelfAttnBlockSpaceManager α)) (List Slot)) := by
  induction seqs with
  | nil => exact Keeps.pure _
  | cons seq rest ih =>
    exact Keeps.bind (tableOf_fixes _) fun _ => Keeps.bind ih fun _ => Keeps.pure _

theorem Overlooks.canSwap (overlooks : Overlooks view) (g : SequenceGroup) (device : Device)
    (status : SequenceStatus) (k : ℕ) : Fixes view
      (canSwap g device status k : Method (Heaped (SelfAttnBlockSpaceManager α)) AllocStatus) :=
  Keeps.bind (numTouchedBlocks_fixes k _) fun _ => Keeps.bind (blocksOf_fixes _) fun _ =>
    Keeps.bind (overlooks.allocator _) fun _ => Keeps.bind Keeps.get fun _ =>
      Keeps.ite (Keeps.pure _) (Keeps.ite (Keeps.pure _) (Keeps.pure _))

theorem Overlooks.swapSeqs (overlooks : Overlooks view) (source target : Device) (seqs : List Sequence) :
    Fixes view (swapSeqs source target seqs :
      Method (Heaped (SelfAttnBlockSpaceManager α)) (List (BlockId × BlockId))) := by
  refine Keeps.bind (Keeps.mapM (fun seq => ?_) seqs) fun _ => Keeps.pure _
  refine Keeps.bind (tableOf_fixes _) fun table => Keeps.ite (Keeps.pure _) ?_
  exact Keeps.bind (overlooks.allocator _) fun _ => Keeps.bind (overlooks.table _ _) fun _ =>
    Keeps.bind (overlooks.allocator _) fun _ => Keeps.pure _

theorem Overlooks.accessAllBlocksInSeq (overlooks : Overlooks view) (seq : Sequence) (now : Time) :
    Fixes view (accessAllBlocksInSeq seq now : Method (Heaped (SelfAttnBlockSpaceManager α)) Unit) := by
  unfold SelfAttnBlockSpaceManager.accessAllBlocksInSeq
  refine Keeps.bind Keeps.get fun s => Keeps.ite ?_ (Keeps.pure _)
  exact Keeps.bind (overlooks.lastAccess _) fun _ => overlooks.lastAccess _

theorem Overlooks.unaffected [PythonHash] (overlooks : Overlooks view) : Unaffected view where
  canAllocate g k := by
    refine Keeps.bind ?_ fun _ => Keeps.bind Keeps.get fun _ => Keeps.pure _
    unfold firstWaiting
    cases g.getSeqs .waiting with
    | nil => exact Keeps.throw _
    | cons seq rest => exact Keeps.pure _
  canAppendSlots g k :=
    Keeps.bind (numTouchedBlocks_fixes k _) fun _ => Keeps.bind Keeps.get fun _ => Keeps.pure _
  appendSlots seq k :=
    Keeps.bind (tableOf_fixes _) fun _ => Keeps.bind (overlooks.table _ _) fun _ => overlooks.allocator _
  canSwapIn g k := overlooks.canSwap g .gpu .swapped k
  swapIn g := overlooks.swapSeqs .cpu .gpu _
  canSwapOut g := Keeps.bind (overlooks.canSwap g .cpu .running 0) fun _ => Keeps.pure _
  swapOut g := overlooks.swapSeqs .gpu .cpu _
  getBlockTable seq := Keeps.bind (tableOf_fixes _) fun _ => Keeps.pure _
  accessAllBlocksInSeq := overlooks.accessAllBlocksInSeq
  markBlocksAsComputed g n := overlooks.allocator _

end

theorem computedBlockIds_keys [PythonHash] (seq : Sequence) :
    Fixes tableKeys (computedBlockIds seq :
      Method (Heaped (SelfAttnBlockSpaceManager α)) (List BlockId)) := by
  unfold computedBlockIds
  refine Keeps.bind (tableOf_fixes _) fun _ => Keeps.bind (onComputedBlocks_keys _) fun _ => ?_
  refine Keeps.bind Keeps.get fun s => Keeps.bind ?_ fun _ => Keeps.pure _
  exact assertThat_keeps _

instance [PythonHash] : LawfulBlockSpaceManager (Heaped (SelfAttnBlockSpaceManager α)) where
  tables := tableKeys
  allocate := allocate_wp
  free := free_wp
  canAllocate := overlooks_keys.unaffected.canAllocate
  canAppendSlots := overlooks_keys.unaffected.canAppendSlots
  appendSlots := overlooks_keys.unaffected.appendSlots
  canSwapIn := overlooks_keys.unaffected.canSwapIn
  swapIn := overlooks_keys.unaffected.swapIn
  canSwapOut := overlooks_keys.unaffected.canSwapOut
  swapOut := overlooks_keys.unaffected.swapOut
  swapOutNothing g s none := by
    show wp (swapSeqs .gpu .cpu (g.getSeqs .running)) _ _ s
    rw [none]
    rfl
  getBlockTable := overlooks_keys.unaffected.getBlockTable
  accessAllBlocksInSeq := overlooks_keys.unaffected.accessAllBlocksInSeq
  getCommonComputedBlockIds seqs :=
    Keeps.bind (Keeps.mapM computedBlockIds_keys seqs) fun _ => Keeps.pure _
  markBlocksAsComputed := overlooks_keys.unaffected.markBlocksAsComputed
  getNumCachedTokens seq := onComputedBlocks_keys _

end SelfAttnBlockSpaceManager
end Vllm
