import VllmProofs.Evictor.LruMlQuiet
import VllmProofs.Evictor.PdpProtection

/-!
What `LRUMLEvictor` remembers of a block id after its eviction. The PDP branch of `evict` clears the
PDP metadata and the other branch the RRIP value, so each leaves what a block has under a policy of
the other; what has been cleared stays so until the id is added again.
-/

namespace Vllm.Evictor.LRUMLEvictor
open Exec

structure Forgotten (s : LRUMLEvictor) (b : BlockId) : Prop where
  absent : s.freeTable.get? b = none
  rrpv : s.rripValues.get? b = none
  firstAccess : s.idToFirstAccess.get? b = none
  protectedUntil : s.pdpProtectedUntilEpoch.get? b = none
  lastAccessEpoch : s.pdpLastAccessEpoch.get? b = none
  reused : s.pdpReused.get? b = none
  mapping : ∀ h, s.pdpContentHashToBlockId.get? h ≠ some b

variable [Numpy] {α : Type} {b : BlockId}

/-- No call of `x` brings anything back for the id. -/
abbrev Forgets (b : BlockId) (x : Method LRUMLEvictor α) : Prop :=
  Confined (fun s => Forgotten s b) (fun _ => True) x

variable {s : LRUMLEvictor}

omit [Numpy] in
theorem Forgotten.of_strip {t : LRUMLEvictor} (forgotten : Forgotten s b) (rest : strip t = strip s)
    (absent : t.freeTable.get? b = none) : Forgotten t b := by
  simp only [strip, LRUMLEvictor.mk.injEq] at rest
  obtain ⟨-, -, -, first, rripValues, -, -, -, -, -, -, -, -, -, protects, reused, last, mapping, -⟩ := rest
  exact ⟨absent, rripValues ▸ forgotten.rrpv, first ▸ forgotten.firstAccess,
    protects ▸ forgotten.protectedUntil, last ▸ forgotten.lastAccessEpoch, reused ▸ forgotten.reused,
    mapping ▸ forgotten.mapping⟩

omit [Numpy] in
theorem Tidy.forgets {x : Method LRUMLEvictor α} (tidy : Tidy x) (b : BlockId) : Forgets b x := by
  refine .of_frames tidy Kept.refl (fun s t forgotten kept => forgotten.of_strip kept.rest ?_)
    fun _ _ => trivial
  have same := kept.table b
  rw [forgotten.absent] at same
  simpa using same

variable {c : BlockId}

omit [Numpy] in
theorem Forgotten.other (forgotten : Forgotten s b)
    {block : BlockMetaData} (resident : s.freeTable.get? c = some block) : b ≠ c := by
  rintro rfl
  rw [forgotten.absent] at resident
  cases resident

omit [Numpy] in
theorem Forgotten.not_mem (forgotten : Forgotten s b) :
    ∀ item ∈ s.freeTable.items, b ≠ item.1 := fun _ member =>
  forgotten.other (Dict.mem_items_iff.mp member)

variable {mapping : Dict PrefixHash BlockId}

omit [Numpy] in
theorem insert_elsewhere (different : b ≠ c)
    (h : PrefixHash) (elsewhere : ∀ k, mapping.get? k ≠ some b) (k : PrefixHash) :
    (mapping.insert h c).get? k ≠ some b := by
  rw [Dict.get?_insert]
  split
  · exact fun same => different (Option.some.inj same).symm
  · exact elsewhere k

omit [Numpy] in
theorem forget_elsewhere (h : PrefixHash) (c : BlockId)
    (elsewhere : ∀ k, mapping.get? k ≠ some b) (k : PrefixHash) :
    (forget mapping h c).get? k ≠ some b := by
  rw [PDPEvictor.get?_forget]
  split
  · intro leads
    cases leads
  · exact elsewhere k

omit [Numpy] in
theorem get?_erase_of_none {K V : Type} [DecidableEq K] {d : Dict K V} {k : K} (j : K)
    (missing : d.get? k = none) : (d.erase j).get? k = none := by
  rw [Dict.get?_erase]
  split
  · rfl
  · exact missing

omit [Numpy] in
theorem get?_insert_of_none {K V : Type} [DecidableEq K] {d : Dict K V} {k j : K} (v : V)
    (different : k ≠ j) (missing : d.get? k = none) : (d.insert j v).get? k = none := by
  rw [Dict.get?_insert_ne different, missing]

theorem ageRripBlocks_forgets : Forgets b ageRripBlocks := by
  refine .bind (.modify fun s forgotten => { forgotten with rrpv := ?_ }) fun _ =>
    rebuildSortedDict_tidy.forgets b
  show (ageEach s.scheduler s.freeTable.items s.rripValues).get? b = none
  rw [ageEach_absent, forgotten.rrpv]
  intro member
  obtain ⟨item, among, same⟩ := List.mem_map.mp member
  exact forgotten.not_mem item among same.symm

theorem selectVictim_forgets (rounds : ℕ) : Forgets b (selectVictim rounds) := by
  induction rounds with
  | zero => exact .throw trivial
  | succ rounds ih =>
    refine .read fun s forgotten => ?_
    split
    · exact .bind (.set { forgotten with }) fun _ => .ite (.pure _) ih
    · refine .bind (peekValidCandidate_tidy.forgets b) fun candidate => ?_
      split
      · exact .throw trivial
      · exact .ite (.bind ageRripBlocks_forgets fun _ => ih)
          (.bind ((removeFromSortedDict_tidy _).forgets b) fun _ => .pure _)

omit [Numpy] in
theorem takenOut_forgets (forgotten : Forgotten s b) (c : BlockId) (policy : Policy) :
    Forgotten (takenOut c policy s) b := by
  refine { forgotten with
    absent := get?_erase_of_none c forgotten.absent
    firstAccess := get?_erase_of_none c forgotten.firstAccess
    rrpv := ?_ }
  show (if policy = .rrip then s.rripValues.erase c else s.rripValues).get? b = none
  split
  · exact get?_erase_of_none c forgotten.rrpv
  · exact forgotten.rrpv

omit [Numpy] in
theorem takeOutPdp_forgets (forgotten : Forgotten s b) (c : BlockId)
    (h : PrefixHash) : Forgotten (takeOutPdp c h s) b where
  absent := get?_erase_of_none c forgotten.absent
  rrpv := forgotten.rrpv
  firstAccess := get?_erase_of_none c forgotten.firstAccess
  protectedUntil := get?_erase_of_none c forgotten.protectedUntil
  lastAccessEpoch := get?_erase_of_none c forgotten.lastAccessEpoch
  reused := get?_erase_of_none c forgotten.reused
  mapping := forget_elsewhere h c forgotten.mapping

theorem evict_forgets : Forgets b evict := by
  have pdp : Forgets b evictPdp := by
    refine .read fun s _ => ?_
    split
    · exact .throw trivial
    · exact .bind ((removeFromSortedDict_tidy _).forgets b) fun _ =>
        .bind (.modify fun s forgotten => takeOutPdp_forgets forgotten _ _) fun _ => .pure _
  have take : ∀ c, Forgets b (takeOut c) := by
    intro c
    refine .read fun s forgotten => ?_
    split
    · exact .throw trivial
    · exact .set (takenOut_forgets forgotten c _)
  refine .read fun s _ => ?_
  split
  · exact .throw trivial
  · exact pdp
  · exact .bind (selectVictim_forgets _) fun victim => .bind (take victim.1) fun _ => .pure _

omit [Numpy] in
theorem prepare_forgets (different : b ≠ c) (h : PrefixHash) (t : Time)
    (policy : Policy) (forgotten : Forgotten s b) : Forgotten (prepare c h t policy s) b := by
  have rrip : Forgotten (seedRrip c policy s) b := by
    unfold seedRrip
    split
    · exact { forgotten with rrpv := get?_insert_of_none _ different forgotten.rrpv }
    · exact forgotten
  have pdp : Forgotten (seedPdp c h policy (seedRrip c policy s)) b := by
    generalize seedRrip c policy s = s at rrip
    unfold seedPdp
    split
    · refine ⟨rrip.absent, rrip.rrpv, rrip.firstAccess, get?_insert_of_none _ different rrip.protectedUntil,
        get?_insert_of_none _ different rrip.lastAccessEpoch, get?_insert_of_none _ different rrip.reused,
        insert_elsewhere different h ?_⟩
      unfold forgetOld
      split
      · exact forget_elsewhere _ c rrip.mapping
      · exact rrip.mapping
    · exact rrip
  unfold prepare
  generalize seedPdp c h policy (seedRrip c policy s) = s at pdp
  unfold seedFirstAccess
  split
  · exact pdp
  · exact { pdp with firstAccess := get?_insert_of_none _ different pdp.firstAccess }

theorem add_forgets (different : b ≠ c) (h : PrefixHash) (n : ℕ) (t : Time)
    (hint : Option CacheHint) : Forgets b (add c h n t hint) :=
  .bind .get fun _ => .bind ((bindSchedulerPolicy_tidy _ _).forgets b) fun _ =>
    .bind (.modify fun _ forgotten => prepare_forgets different h t _ forgotten) fun _ =>
    .bind ((calcScore_tidy _ _ _).forgets b) fun _ =>
    .bind (.modify fun _ forgotten =>
      { forgotten with absent := get?_insert_of_none _ different forgotten.absent }) fun _ =>
    .bind ((recordLastAccess_tidy _ _).forgets b) fun _ => refreshIfDue_tidy.forgets b

omit [Numpy] in
theorem pdpProtectBlock_forgets (different : b ≠ c) (reused : Bool) :
    Forgets b (pdpProtectBlock c reused) := by
  refine .modify fun s forgotten => ?_
  unfold protectedNow
  split
  · refine { forgotten with
      protectedUntil := get?_insert_of_none _ different forgotten.protectedUntil
      lastAccessEpoch := get?_insert_of_none _ different forgotten.lastAccessEpoch
      reused := ?_ }
    show (if reused then s.pdpReused.insert c true else s.pdpReused).get? b = none
    split
    · exact get?_insert_of_none _ different forgotten.reused
    · exact forgotten.reused
  · exact forgotten

theorem update_forgets (c : BlockId) (t : Time) (hint : Option CacheHint) : Forgets b (update c t hint) := by
  refine .read fun s forgotten => ?_
  split
  · exact .throw trivial
  · rename_i block resident
    have different := forgotten.other resident
    have touched : ∀ policy, Forgets b (touch c policy) := fun policy =>
      .ite (.modify fun _ forgotten =>
          { forgotten with rrpv := get?_insert_of_none _ different forgotten.rrpv })
        (.ite (pdpProtectBlock_forgets different true) (.pure _))
    exact .bind ((bindSchedulerPolicy_tidy _ _).forgets b) fun _ =>
      .bind ((removeFromSortedDict_tidy _).forgets b) fun _ => .bind (touched _) fun _ =>
      .bind ((calcScore_tidy _ _ _).forgets b) fun _ =>
      .bind (.modify fun _ forgotten =>
        { forgotten with absent := get?_insert_of_none _ different forgotten.absent }) fun _ =>
      (recordLastAccess_tidy _ _).forgets b

omit [Numpy] in
theorem remove_forgets (c : BlockId) : Forgets b (remove c) := by
  refine .read fun s forgotten => ?_
  split
  · exact .throw trivial
  · rename_i block resident
    have different := forgotten.other resident
    refine .bind (.modify fun s forgotten => ?_) fun _ => .bind ((removeFromSortedDict_tidy _).forgets b)
      fun _ => .modify fun _ forgotten =>
        { forgotten with absent := get?_erase_of_none c forgotten.absent }
    unfold release
    split
    · exact { forgotten with rrpv := get?_insert_of_none _ different forgotten.rrpv }
    · split
      · exact { forgotten with
          protectedUntil := get?_erase_of_none c forgotten.protectedUntil
          lastAccessEpoch := get?_erase_of_none c forgotten.lastAccessEpoch
          reused := get?_erase_of_none c forgotten.reused
          mapping := forget_elsewhere _ c forgotten.mapping }
      · exact forgotten

theorem rebind_forgets : Forgets b rebindSchedulerPolicyForExistingBlocks := by
  have blocks : ∀ policy (items : List (BlockId × BlockMetaData)), (∀ item ∈ items, b ≠ item.1) →
      Forgets b (rebindEach policy items) := by
    intro policy items
    induction items with
    | nil => exact fun _ => .pure _
    | cons item rest ih =>
      intro others
      have different := others item List.mem_cons_self
      unfold rebindEach
      split
      · exact .throw trivial
      · refine .bind (.modify fun s forgotten => ?_) fun _ =>
          ih fun other later => others other (List.mem_cons_of_mem _ later)
        unfold rebindBlock
        have absent : ∀ block, (s.freeTable.insert item.1 block).get? b = none := fun block =>
          get?_insert_of_none _ different forgotten.absent
        split
        · exact { forgotten with
            absent := absent _, rrpv := get?_insert_of_none _ different forgotten.rrpv }
        · split
          · exact { forgotten with
              absent := absent _
              protectedUntil := get?_insert_of_none _ different forgotten.protectedUntil
              lastAccessEpoch := get?_insert_of_none _ different forgotten.lastAccessEpoch
              reused := get?_insert_of_none _ different forgotten.reused
              mapping := insert_elsewhere different _ forgotten.mapping }
          · exact { forgotten with absent := absent _ }
  refine .read fun s forgotten => .ite (.pure _) (.bind (.modify fun s forgotten => ?_) fun _ =>
    .bind (blocks _ _ forgotten.not_mem) fun _ => .bind (.modify fun _ forgotten => { forgotten with })
      fun _ => rebuildSortedDict_tidy.forgets b)
  unfold seed
  split
  · exact { forgotten with rrpv := rfl, mapping := fun _ leads => by cases leads }
  · exact { forgotten with rrpv := rfl }

omit [Numpy] in
theorem pdpObserve_forgets (h : PrefixHash) (hit : Option Bool) : Forgets b (pdpObserve h hit) := by
  have reuse : Forgets b (recordReuse h) := by
    refine .read fun s _ => ?_
    split
    · exact .pure _
    · refine .bind (.bind .get fun s => ?_) fun _ => .modify fun _ forgotten => { forgotten with }
      exact .ite (.pure _) (.bind (.ite (.throw trivial) (.pure _)) fun _ => .pure _)
  have holder : ∀ reused, Forgets b (protectHolder h reused) := by
    intro reused
    refine .read fun s forgotten => ?_
    split
    · exact .pure _
    · rename_i c leads
      refine .ite (pdpProtectBlock_forgets ?_ reused) (.pure _)
      rintro rfl
      exact forgotten.mapping h leads
  have recompute : Forgets b recomputeIfDue := by
    refine .bind .get fun s => .bind (.ite (.throw trivial) (.pure _)) fun due => .ite ?_ (.pure _)
    refine .bind .get fun s => .bind ?_ fun _ => .modify fun _ forgotten => { forgotten with }
    exact .ite (.pure _) (.bind (.ite (.throw trivial) (.pure _)) fun _ => .pure _)
  exact .bind (.modify fun _ forgotten => { forgotten with }) fun _ => .bind .get fun _ =>
    .bind reuse fun _ => .bind (.modify fun _ forgotten => { forgotten with }) fun _ =>
    .bind (holder _) fun _ => recompute

omit [Numpy] in
theorem onScheduler_forgets (x : Method (Timed EvictionPolicyScheduler) α) : Forgets b (onScheduler x) :=
  .zoom (J := fun _ => True) (fun _ _ => wp_intro (fun _ _ _ => trivial) fun _ _ _ => ⟨trivial, trivial⟩)
    (fun _ _ => trivial) fun _ _ forgotten _ => { forgotten with }

theorem observe_forgets (h : PrefixHash) (hint : Option CacheHint) (hit : Option Bool) :
    Forgets b (observeCacheAccess h hint hit) :=
  .bind .get fun _ => .ite
    (.bind (onScheduler_forgets _) fun _ => .ite rebind_forgets (.pure _))
    (.ite (pdpObserve_forgets h hit) (.pure _))

omit [Numpy] in
def Call.Adds (b : BlockId) : Call → Prop
  | .op (.add c _ _ _ _) => c = b
  | _ => False

theorem call_forgets {c : Call} (other : ¬c.Adds b) : Forgets b c.run := by
  cases c with
  | op op =>
    cases op with
    | add c h n t hint => exact add_forgets (fun same => other same.symm) h n t hint
    | update c t hint => exact update_forgets c t hint
    | remove c => exact remove_forgets c
    | evict => exact .bind evict_forgets fun _ => .pure _
    | observe h hint hit => exact observe_forgets h hint hit
  | setCapacity capacity => exact onScheduler_forgets _

end Vllm.Evictor.LRUMLEvictor
