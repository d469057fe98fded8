import VllmProofs.Block.Common

/-!
The pool hands out objects nobody holds. Which of its objects those are is all the allocators
depend on, not the order of the free list.
-/

namespace Vllm
open Exec Heaped

theorem wp_assertThat {σ : Type} {p : Prop} [Decidable p] {Q : Unit → σ → Prop}
    {E : PyError → σ → Prop} {s : σ} :
    wp (assertThat p) Q E s ↔ (p → Q () s) ∧ (¬p → E .assertionError s) := by
  unfold assertThat
  simp

theorem assertThat_keeps {σ : Type} {R : σ → σ → Prop} [IsPreorder σ R] (p : Prop) [Decidable p] :
    Keeps R (assertThat p : Method σ Unit) := Keeps.ite (Keeps.pure _) (Keeps.throw _)

theorem assertThat_call {σ : Type} {p : Prop} [Decidable p] {s t : σ} {u : Unit}
    (call : assertThat p s = .ok u t) : p ∧ t = s := by
  unfold assertThat at call
  split at call
  · cases call
    exact ⟨‹p›, rfl⟩
  · cases call

theorem Heaped.wp_onSelf {α β : Type} {method : Method α β} {Q : β → Heaped α → Prop}
    {E : PyError → Heaped α → Prop} {s : Heaped α} :
    wp (onSelf method) Q E s ↔
      wp method (fun a t => Q a ⟨s.objects, t⟩) (fun e t => E e ⟨s.objects, t⟩) s.self := wp_zoom

theorem Heaped.wp_onObjects {α β : Type} {method : Method Objects β} {Q : β → Heaped α → Prop}
    {E : PyError → Heaped α → Prop} {s : Heaped α} :
    wp (onObjects method) Q E s ↔
      wp method (fun a o => Q a ⟨o, s.self⟩) (fun e o => E e ⟨o, s.self⟩) s.objects := wp_zoom

/-- An exception that is not `NoFreeBlocksError`, the one callers expect. -/
def Fatal (e : PyError) : Prop := e ≠ .noFreeBlocksError

namespace BlockPool

/-- The objects of the pool that nobody holds, those it has yet to create included. -/
def Fresh (s : BlockPool) : Set BlockRef :=
  {r | r.pool = s.device ∧ (r.poolId ∈ s.freeIds ∨ s.poolSize ≤ r.poolId)}

structure Valid (s : BlockPool) : Prop where
  nodup : s.freeIds.Nodup
  bounded : ∀ i ∈ s.freeIds, i < s.poolSize

theorem replenished_fresh (s : BlockPool) : s.replenished.Fresh = s.Fresh := by
  unfold replenished
  split
  · ext r
    simp only [Fresh, increasePool, Set.mem_ofPred_eq, List.mem_append, List.mem_range'_1]
    constructor
    · rintro ⟨mine, (free | added) | later⟩
      · exact ⟨mine, Or.inl free⟩
      · exact ⟨mine, Or.inr added.1⟩
      · exact ⟨mine, Or.inr (by omega)⟩
    · rintro ⟨mine, free | later⟩
      · exact ⟨mine, Or.inl (Or.inl free)⟩
      · refine ⟨mine, ?_⟩
        by_cases created : s.poolSize * 2 ≤ r.poolId
        · exact Or.inr created
        · exact Or.inl (Or.inr ⟨later, by omega⟩)
  · rfl

theorem replenished_device (s : BlockPool) : s.replenished.device = s.device := by
  unfold replenished
  split <;> rfl

variable {s : BlockPool}

theorem Valid.replenished (valid : s.Valid) : s.replenished.Valid := by
  unfold BlockPool.replenished
  split
  · rename_i empty
    have none : s.freeIds = [] := List.eq_nil_of_length_eq_zero empty
    refine ⟨?_, ?_⟩
    · simpa [increasePool, none] using List.nodup_range'
    · intro i member
      simp only [increasePool, none, List.nil_append, List.mem_range'_1] at member ⊢
      omega
  · exact valid

structure Handed (s t : Heaped BlockPool) (r : BlockRef) (block : Block) : Prop where
  fresh : r ∈ s.self.Fresh
  valid : t.self.Valid
  left : t.self.Fresh = s.self.Fresh \ {r}
  device : t.self.device = s.self.device
  objects : t.objects = s.objects.insert r block

theorem initBlock_wp {s : Heaped BlockPool} {prev : Option BlockRef} {tokenIds : List TokenId}
    {blockSize : ℕ} {blockId : Option BlockId} {extraHash : Option ℤ} (valid : s.self.Valid) :
    wp (initBlock prev tokenIds blockSize blockId extraHash)
      (fun r t => tokenIds.length ≤ blockSize ∧
        Handed s t r (initialized s.objects prev tokenIds blockId extraHash))
      (fun e _ => Fatal e) s := by
  have valid' := valid.replenished
  have fresh := replenished_fresh s.self
  have device := replenished_device s.self
  unfold initBlock
  simp only [wp_bind, wp_get]
  cases ids : s.self.replenished.freeIds with
  | nil => simp [Fatal]
  | cons i rest =>
    simp only [wp_bind, wp_set, wp_ite, wp_assertThat, wp_modify, wp_pure, wp_throw]
    have nodup := valid'.nodup
    rw [ids, List.nodup_cons] at nodup
    have mine : (⟨s.self.device, i⟩ : BlockRef) ∈ s.self.Fresh := by
      rw [← fresh]
      exact ⟨device.symm, Or.inl (by rw [ids]; exact List.mem_cons_self)⟩
    refine ⟨fun small => ⟨fun fits => ⟨fits, ?_⟩, fun _ => by simp [Fatal]⟩, fun _ => by simp [Fatal]⟩
    refine ⟨device ▸ mine, ⟨nodup.2, ?_⟩, ?_, device, rfl⟩
    · intro j member
      exact valid'.bounded j (by rw [ids]; exact List.mem_cons_of_mem i member)
    · rw [← fresh, device]
      ext ⟨pool, j⟩
      simp only [Fresh, Set.mem_ofPred_eq, Set.mem_sdiff, Set.mem_singleton_iff, BlockRef.mk.injEq, ids,
        List.mem_cons, device]
      constructor
      · rintro ⟨same, member | later⟩
        · exact ⟨⟨same, Or.inl (Or.inr member)⟩, fun here => nodup.1 (here.2 ▸ member)⟩
        · exact ⟨⟨same, Or.inr later⟩, fun here => by omega⟩
      · rintro ⟨⟨same, (here | member) | later⟩, different⟩
        · exact absurd ⟨same, here⟩ different
        · exact ⟨same, Or.inl member⟩
        · exact ⟨same, Or.inr later⟩

theorem freeBlock_fresh {r : BlockRef} (mine : r.pool = s.device) :
    Fresh { s with freeIds := r.poolId :: s.freeIds } = insert r s.Fresh := by
  ext ⟨pool, j⟩
  obtain ⟨pool', i⟩ := r
  simp only at mine
  subst mine
  simp only [Fresh, Set.mem_ofPred_eq, List.mem_cons, Set.mem_insert_iff, BlockRef.mk.injEq]
  tauto

theorem Valid.freeBlock {r : BlockRef} (valid : s.Valid) (mine : r.pool = s.device)
    (held : r ∉ s.Fresh) : Valid { s with freeIds := r.poolId :: s.freeIds } := by
  have created : r.poolId ∉ s.freeIds ∧ r.poolId < s.poolSize := by
    constructor
    · exact fun member => held ⟨mine, Or.inl member⟩
    · by_contra later
      exact held ⟨mine, Or.inr (by omega)⟩
  refine ⟨List.nodup_cons.mpr ⟨created.1, valid.nodup⟩, ?_⟩
  intro i member
  rcases List.mem_cons.mp member with rfl | old
  · exact created.2
  · exact valid.bounded i old

end BlockPool
end Vllm
