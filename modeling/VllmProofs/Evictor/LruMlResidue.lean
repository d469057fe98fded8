import VllmProofs.Evictor.LruMlForget

/-!
Which evictions of `LRUMLEvictor` leave something of the block behind. `evict` chooses its branch by
the policy of the first resident block and clears what that branch knows of, so the victim fits it or
keeps, for the next content under its id, what it had under a policy of the other kind.
-/

namespace Vllm.Evictor.LRUMLEvictor
open Exec

variable [Numpy] {α : Type} {s t : LRUMLEvictor} {b : BlockId} {h : PrefixHash}

/-! ### The search for a victim -/

structure Searching (r s : LRUMLEvictor) : Prop where
  rest : { strip s with rripValues := ∅ } = { strip r with rripValues := ∅ }
  table : Rescored r.freeTable s.freeTable
  values : ∀ b block, r.freeTable.get? b = some block → getPolicy r.scheduler block.cacheHint ≠ .rrip →
    s.rripValues.get? b = r.rripValues.get? b

omit [Numpy] in
theorem Searching.refl (s : LRUMLEvictor) : Searching s s := ⟨rfl, .refl _, fun _ _ _ _ => rfl⟩

omit [Numpy] in
theorem Searching.scheduler {r s : LRUMLEvictor} (searching : Searching r s) :
    s.scheduler = r.scheduler := by
  have same := congrArg LRUMLEvictor.scheduler searching.rest
  exact same

omit [Numpy] in
theorem Searching.kept {r s t : LRUMLEvictor} (searching : Searching r s) (kept : Kept s t) :
    Searching r t := by
  have values := congrArg LRUMLEvictor.rripValues kept.rest
  change t.rripValues = s.rripValues at values
  refine ⟨?_, searching.table.trans kept.table, fun b block held other => ?_⟩
  · rw [kept.rest]
    exact searching.rest
  · rw [values]
    exact searching.values b block held other

omit [Numpy] in
theorem Tidy.searching {x : Method LRUMLEvictor α} (tidy : Tidy x) (r : LRUMLEvictor) :
    Confined (Searching r) (fun _ => True) x :=
  .of_frames tidy Kept.refl (fun _ _ searching kept => searching.kept kept) fun _ _ => trivial

theorem ageRripBlocks_searching (r : LRUMLEvictor) :
    Confined (Searching r) (fun _ => True) ageRripBlocks := by
  refine .bind (.modify fun s searching => ?_) fun _ => rebuildSortedDict_tidy.searching r
  refine ⟨searching.rest, searching.table, fun b block held other => ?_⟩
  rw [← searching.values b block held other]
  refine ageEach_other fun aged member => ?_
  obtain ⟨before, old, same⟩ := searching.table.resident (Dict.mem_items_iff.mp member)
  rw [held] at old
  cases old
  rw [searching.scheduler, ← (unscored_fields same).2.2]
  exact other

theorem selectVictim_searching (r : LRUMLEvictor) (rounds : ℕ) :
    Confined (Searching r) (fun _ => True) (selectVictim rounds) := by
  induction rounds with
  | zero => exact .throw trivial
  | succ rounds ih =>
    refine .read fun s searching => ?_
    split
    · exact .bind (.set ⟨searching.rest, searching.table, searching.values⟩) fun _ => .ite (.pure _) ih
    · refine .bind (peekValidCandidate_tidy.searching r) fun candidate => ?_
      split
      · exact .throw trivial
      · exact .ite (.bind (ageRripBlocks_searching r) fun _ => ih)
          (.bind ((removeFromSortedDict_tidy _).searching r) fun _ => .pure _)

/-- What an eviction has done, by its branch. -/
theorem evict_cases (call : evict s = .ok (b, h) t) : ∃ block, s.freeTable.get? b = some block ∧
    (samplePolicy s = some .pdp ∧ (∃ u, Kept s u ∧ t = takeOutPdp b block.contentHash u) ∨
      samplePolicy s ≠ some .pdp ∧
        ∃ u, Searching s u ∧ t = takenOut b (getPolicy s.scheduler block.cacheHint) u) := by
  cases sampled : samplePolicy s with
  | none =>
    rw [evict, get_bind, sampled] at call
    cases call
  | some policy =>
    by_cases pdp : policy = .pdp
    · subst pdp
      rw [evict, get_bind, sampled] at call
      simp only [evictPdp, get_bind] at call
      cases least : s.freeTable.items.argmin fun item => pdpVictimKey s item.1 item.2 with
      | none =>
        rw [least] at call
        cases call
      | some item =>
        simp only [least] at call
        obtain ⟨_, u, removed, call⟩ := bind_ok call
        have kept : Kept s u := (removeFromSortedDict_tidy item.1 s).returned (.refl s) removed
        cases call
        exact ⟨item.2, Dict.mem_items_iff.mp (List.argmin_mem least), Or.inl ⟨rfl, u, kept, rfl⟩⟩
    · rw [evict_search sampled pdp] at call
      obtain ⟨chosen, u, selected, call⟩ := bind_ok call
      obtain ⟨_, v, taken, call⟩ := bind_ok call
      obtain ⟨rfl, rfl⟩ := pure_ok call
      have searching := (selectVictim_searching s _).returned (.refl s) selected
      rw [takeOut, get_bind] at taken
      cases held : u.freeTable.get? b with
      | none =>
        simp only [held] at taken
        cases taken
      | some now =>
        simp only [held] at taken
        cases taken
        obtain ⟨block, before, same⟩ := searching.table.resident held
        refine ⟨block, before, Or.inr ⟨fun sampled => pdp (Option.some.inj sampled), u, searching, ?_⟩⟩
        rw [(unscored_fields same).2.2, searching.scheduler]

/-! ### Which evictions clear everything -/

structure FitsPdp (s : LRUMLEvictor) (b : BlockId) (block : BlockMetaData) : Prop where
  rrpv : s.rripValues.get? b = none
  mapping : ∀ h, s.pdpContentHashToBlockId.get? h = some b → h = block.contentHash

structure FitsOther (s : LRUMLEvictor) (b : BlockId) (block : BlockMetaData) : Prop where
  rrpv : getPolicy s.scheduler block.cacheHint ≠ .rrip → s.rripValues.get? b = none
  protectedUntil : s.pdpProtectedUntilEpoch.get? b = none
  lastAccessEpoch : s.pdpLastAccessEpoch.get? b = none
  reused : s.pdpReused.get? b = none
  mapping : ∀ h, s.pdpContentHashToBlockId.get? h ≠ some b

/-- The branch that the first resident block's policy selects fits what is kept for a block. -/
def Fits (s : LRUMLEvictor) (b : BlockId) : Prop :=
  ∀ block, s.freeTable.get? b = some block →
    if samplePolicy s = some .pdp then FitsPdp s b block else FitsOther s b block

variable {u : LRUMLEvictor}

omit [Numpy] in
theorem takeOutPdp_forgotten_iff (block : BlockMetaData) (kept : Kept s u) :
    Forgotten (takeOutPdp b block.contentHash u) b ↔ FitsPdp s b block := by
  obtain ⟨rest, -⟩ := kept
  simp only [strip, LRUMLEvictor.mk.injEq] at rest
  obtain ⟨-, -, -, -, rripValues, -, -, -, -, -, -, -, -, -, -, -, -, mapping, -⟩ := rest
  constructor
  · intro forgotten
    refine ⟨rripValues ▸ forgotten.rrpv, fun h leads => ?_⟩
    by_contra different
    refine forgotten.mapping h ?_
    show (forget u.pdpContentHashToBlockId block.contentHash b).get? h = some b
    rw [PDPEvictor.get?_forget, if_neg fun both => different both.1, mapping, leads]
  · intro fits
    refine ⟨Dict.get?_erase_self _ _, rripValues ▸ fits.rrpv, Dict.get?_erase_self _ _,
      Dict.get?_erase_self _ _, Dict.get?_erase_self _ _, Dict.get?_erase_self _ _, fun h leads => ?_⟩
    change (forget u.pdpContentHashToBlockId block.contentHash b).get? h = some b at leads
    rw [PDPEvictor.get?_forget, mapping] at leads
    split at leads
    · cases leads
    · rename_i held
      have same := fits.mapping h leads
      subst same
      exact held ⟨rfl, leads⟩

omit [Numpy] in
theorem takenOut_forgotten_iff {block : BlockMetaData}
    (held : s.freeTable.get? b = some block) (searching : Searching s u) :
    Forgotten (takenOut b (getPolicy s.scheduler block.cacheHint) u) b ↔ FitsOther s b block := by
  have values := searching.values b block held
  have rest := searching.rest
  simp only [strip, LRUMLEvictor.mk.injEq] at rest
  obtain ⟨-, -, -, -, -, -, -, -, -, -, -, -, -, -, protects, reused, last, mapping, -⟩ := rest
  constructor
  · intro forgotten
    refine ⟨fun other => ?_, protects ▸ forgotten.protectedUntil, last ▸ forgotten.lastAccessEpoch,
      reused ▸ forgotten.reused, mapping ▸ forgotten.mapping⟩
    have cleared : (if getPolicy s.scheduler block.cacheHint = .rrip then u.rripValues.erase b
      else u.rripValues).get? b = none := forgotten.rrpv
    rw [if_neg other, values other] at cleared
    exact cleared
  · intro fits
    refine ⟨Dict.get?_erase_self _ _, ?_, Dict.get?_erase_self _ _, protects ▸ fits.protectedUntil,
      last ▸ fits.lastAccessEpoch, reused ▸ fits.reused, mapping ▸ fits.mapping⟩
    show (if getPolicy s.scheduler block.cacheHint = .rrip then u.rripValues.erase b
      else u.rripValues).get? b = none
    split
    · exact Dict.get?_erase_self _ _
    · rename_i other
      rw [values other, fits.rrpv other]

theorem evict_forgotten_iff (call : evict s = .ok (b, h) t) : Forgotten t b ↔ Fits s b := by
  obtain ⟨block, held, ⟨sampled, u, kept, rfl⟩ | ⟨sampled, u, searching, rfl⟩⟩ := evict_cases call
  · rw [takeOutPdp_forgotten_iff block kept]
    refine ⟨fun fits other found => ?_, fun fits => ?_⟩
    · cases held.symm.trans found
      rwa [if_pos sampled]
    · have fits := fits block held
      rwa [if_pos sampled] at fits
  · rw [takenOut_forgotten_iff held searching]
    refine ⟨fun fits other found => ?_, fun fits => ?_⟩
    · cases held.symm.trans found
      rwa [if_neg sampled]
    · have fits := fits block held
      rwa [if_neg sampled] at fits

/-! ### What a block starts from -/

structure Metadata where
  rrpv : Option ℕ
  firstAccess : Option Time
  protectedUntil : Option ℤ
  lastAccessEpoch : Option ℤ
  reused : Option Bool

def metadata (s : LRUMLEvictor) (b : BlockId) : Metadata where
  rrpv := s.rripValues.get? b
  firstAccess := s.idToFirstAccess.get? b
  protectedUntil := s.pdpProtectedUntilEpoch.get? b
  lastAccessEpoch := s.pdpLastAccessEpoch.get? b
  reused := s.pdpReused.get? b

/-- What a new id is given for a content and a policy. -/
def startMetadata (s : LRUMLEvictor) (h : PrefixHash) (time : Time) (policy : Policy) : Metadata where
  rrpv := if policy = .rrip then some rripInsertRrpv else none
  firstAccess := some time
  protectedUntil :=
    if policy = .pdp then some (s.pdpRequestEpoch + s.pdpProtectingDistance) else none
  lastAccessEpoch :=
    if policy = .pdp then some ((s.pdpLastSeenEpoch.get? h).getD s.pdpRequestEpoch) else none
  reused := if policy = .pdp then some (s.pdpLastSeenEpoch.contains h) else none

structure StartsAnew (s t : LRUMLEvictor) (b : BlockId) (h : PrefixHash) (time : Time)
    (policy : Policy) : Prop where
  metadata : metadata t b = startMetadata s h time policy
  mapping : ∀ k, t.pdpContentHashToBlockId.get? k = some b ↔ policy = .pdp ∧ k = h

omit [Numpy] in
theorem prepare_starts (forgotten : Forgotten s b) (h : PrefixHash) (time : Time) (policy : Policy) :
    StartsAnew s (prepare b h time policy s) b h time policy := by
  have unseeded : s.rripValues.contains b = false := Dict.not_contains_iff.mpr forgotten.rrpv
  have unknown : s.idToFirstAccess.contains b = false := Dict.not_contains_iff.mpr forgotten.firstAccess
  have nowhere := forgotten.mapping
  cases policy with
  | pdp =>
    have seeded : prepare b h time .pdp s = { seedPdp b h .pdp s with
        idToFirstAccess := s.idToFirstAccess.insert b time } := by
      simp [prepare, seedRrip, seedPdp, seedFirstAccess, unknown]
    rw [seeded]
    refine ⟨by simp [metadata, startMetadata, seedPdp, forgotten.rrpv], fun k => ?_⟩
    have old : ∀ k, (forgetOld b s).get? k ≠ some b := by
      simp [forgetOld, forgotten.absent, nowhere]
    simp only [seedPdp, ↓reduceIte, Dict.get?_insert, true_and]
    split
    · rename_i same
      exact iff_of_true rfl same
    · rename_i different
      exact iff_of_false (old k) different
  | rrip =>
    refine ⟨by simp [metadata, startMetadata, prepare, seedRrip, seedPdp, seedFirstAccess, unseeded,
      unknown, forgotten.protectedUntil, forgotten.lastAccessEpoch, forgotten.reused], fun k => ?_⟩
    simp [prepare, seedRrip, seedPdp, seedFirstAccess, unseeded, unknown, nowhere]
  | _ =>
    refine ⟨by simp [metadata, startMetadata, prepare, seedRrip, seedPdp, seedFirstAccess, forgotten.rrpv,
      unknown, forgotten.protectedUntil, forgotten.lastAccessEpoch, forgotten.reused], fun k => ?_⟩
    simp [prepare, seedRrip, seedPdp, seedFirstAccess, unknown, nowhere]

omit [Numpy] in
theorem StartsAnew.of_strip {time : Time} {policy : Policy}
    (starts : StartsAnew s t b h time policy) (same : strip u = strip t) :
    StartsAnew s u b h time policy := by
  simp only [strip, LRUMLEvictor.mk.injEq] at same
  obtain ⟨-, -, -, first, rripValues, -, -, -, -, -, -, -, -, -, protects, reused, last, mapping, -⟩ := same
  refine ⟨?_, by rw [mapping]; exact starts.mapping⟩
  rw [← starts.metadata]
  simp only [LRUMLEvictor.metadata, first, rripValues, protects, reused, last]

omit [Numpy] in
theorem getPolicy_bind {hint hint' : Option CacheHint}
    (call : bindSchedulerPolicy s.scheduler hint s = .ok hint' t) :
    t = s ∧ getPolicy s.scheduler hint' = getPolicy s.scheduler hint := by
  refine ⟨(bindSchedulerPolicy_ok call).1, ?_⟩
  unfold bindSchedulerPolicy at call
  cases enabled : s.scheduler.enabled with
  | false =>
    simp only [enabled, Bool.not_false, ↓reduceIte] at call
    rw [(pure_ok call).1]
  | true =>
    simp only [enabled, Bool.not_true, Bool.false_eq_true, ↓reduceIte] at call
    cases hint with
    | none => cases call
    | some hint =>
      dsimp only at call
      cases own : hint.ownPolicy with
      | some policy =>
        rw [own] at call
        rw [(pure_ok call).1]
      | none =>
        rw [own] at call
        rw [← (pure_ok call).1]
        simp [getPolicy, hint.ownPolicy_bind own, own, enabled]

theorem add_starts {n : ℕ} {time : Time} {hint : Option CacheHint} (forgotten : Forgotten s b)
    (call : add b h n time hint s = .ok () t) :
    StartsAnew s t b h time (getPolicy s.scheduler hint) := by
  rw [add, get_bind] at call
  obtain ⟨bound, u, binding, call⟩ := bind_ok call
  obtain ⟨rfl, same⟩ := getPolicy_bind binding
  rw [same, modify_bind] at call
  refine (prepare_starts forgotten h time _).of_strip ?_
  generalize prepare b h time (getPolicy u.scheduler hint) u = v at call
  -- what is left scores and files the block
  have files : ∀ {β : Type} {x : Method LRUMLEvictor β}, Tidy x →
      Confined (fun w => strip w = strip v) (fun _ => True) x := fun tidy =>
    .of_frames tidy Kept.refl (fun _ _ same kept => kept.rest.trans same) fun _ _ => trivial
  refine Confined.returned (I := fun w => strip w = strip v) (E := fun _ => True) ?_ rfl call
  exact .bind (files (calcScore_tidy _ _ _)) fun _ => .bind (.modify fun _ same => same) fun _ =>
    .bind (files (recordLastAccess_tidy _ _)) fun _ => files refreshIfDue_tidy

/-! ### Runs -/

/-- The call is an eviction that returns the id. -/
def Event.Evicts (e : Event) (b : BlockId) : Prop :=
  e.call = .op .evict ∧ ∃ h t, evict e.before = .ok (b, h) t

/-- The id has not been added yet, or not again since an eviction. -/
def Unused (b : BlockId) : List Event → Prop
  | [] => True
  | e :: earlier => e.Evicts b ∨ ¬e.call.Adds b ∧ Unused b earlier

/-- An eviction leaves nothing of the block behind, and whatever is added next under its id starts
as under an id never seen. -/
structure ForgetsEvicted (history : List Event) : Prop where
  forgets : ∀ e ∈ history, ∀ b, e.Evicts b → Forgotten (after e.call.run e.before) b
  starts : ∀ later e earlier, history = later ++ e :: earlier → ∀ b h n time hint,
    e.call = .op (.add b h n time hint) → Unused b earlier → ∀ t, add b h n time hint e.before = .ok () t →
    StartsAnew e.before t b h time (getPolicy e.before.scheduler hint)

theorem Event.Evicts.forgotten_iff {e : Event} (evicts : e.Evicts b) :
    Forgotten (after e.call.run e.before) b ↔ Fits e.before b := by
  obtain ⟨before, call⟩ := e
  obtain ⟨rfl, h, t, returned⟩ := evicts
  have done : Call.run (.op .evict) before = .ok () t := bind_of_ok returned
  rw [after_ok done]
  exact evict_forgotten_iff returned

variable {start : LRUMLEvictor} {history : List Event}

theorem unused_forgotten (new : ∀ b, Forgotten start b) (run : Run Made start history s)
    (forgets : ∀ e ∈ history, ∀ b, e.Evicts b → Forgotten (after e.call.run e.before) b) (b : BlockId)
    (unused : Unused b history) : Forgotten s b := by
  induction run with
  | start => exact new b
  | @call history s t e run made ih =>
    obtain ⟨rfl, rfl⟩ := made
    rcases unused with evicts | ⟨other, unused⟩
    · exact forgets e List.mem_cons_self b evicts
    · exact (call_forgets other).after (ih (fun e member => forgets e (List.mem_cons_of_mem _ member)) unused)

omit [Numpy] in
theorem init_forgotten (scheduler : EvictionPolicyScheduler) (settings : PdpSettings)
    (lastRefreshTime : Time) (clock : Clock) (b : BlockId) :
    Forgotten (init scheduler settings lastRefreshTime clock) b :=
  ⟨rfl, rfl, rfl, rfl, rfl, rfl, fun _ leads => nomatch leads⟩

/-- In a run nothing is left of evicted blocks, for whatever comes next under their ids, just when
each block evicted fits the branch that evicted it. -/
theorem run_forgets_iff {scheduler : EvictionPolicyScheduler} {settings : PdpSettings}
    {lastRefreshTime : Time} {clock : Clock}
    (run : Run Made (init scheduler settings lastRefreshTime clock) history s) :
    ForgetsEvicted history ↔ ∀ e ∈ history, ∀ b, e.Evicts b → Fits e.before b := by
  constructor
  · intro forgets e member b evicts
    exact evicts.forgotten_iff.mp (forgets.forgets e member b evicts)
  · intro fits
    have forgets : ∀ e ∈ history, ∀ b, e.Evicts b → Forgotten (after e.call.run e.before) b :=
      fun e member b evicts => evicts.forgotten_iff.mpr (fits e member b evicts)
    refine ⟨forgets, ?_⟩
    intro later e earlier split b h n time hint _ unused t added
    refine add_starts ?_ added
    subst split
    obtain ⟨u, v, before, rfl, -⟩ := run.split
    refine unused_forgotten (init_forgotten _ _ _ _) before (fun e member => forgets e ?_) b unused
    exact List.mem_append_right _ (List.mem_cons_of_mem _ member)

/-- The evictor after the calls, latest first. -/
def replay (start : LRUMLEvictor) : List Call → LRUMLEvictor
  | [] => start
  | c :: earlier => after c.run (replay start earlier)

/-- The calls, with the states they are made on. -/
def recorded (start : LRUMLEvictor) : List Call → List Event
  | [] => []
  | c :: earlier => ⟨replay start earlier, c⟩ :: recorded start earlier

theorem replay_run (start : LRUMLEvictor) (calls : List Call) :
    Run Made start (recorded start calls) (replay start calls) := by
  induction calls with
  | nil => exact .start
  | cons c earlier ih => exact .call ih ⟨rfl, rfl⟩

def resting : LRUMLEvictor := init {} {} 0 { readings := fun _ => 0 }

abbrev rripHint : CacheHint := { id := some 0, useRrip := some 1 }

/-- A block under RRIP, and out again. -/
def addedOnce : List Call := [.op .evict, .op (.add 0 30 16 0 (some rripHint))]

omit [Numpy] in
theorem run_forgets_iff_addedOnce :
    @ForgetsEvicted noPrediction (@recorded noPrediction resting addedOnce) := by
  let _ : Numpy := noPrediction
  refine (run_forgets_iff (replay_run resting addedOnce)).mpr fun e member b evicts => ?_
  simp only [recorded, addedOnce, List.mem_cons, List.not_mem_nil, or_false] at member
  rcases member with rfl | rfl
  · obtain ⟨-, h, t, returned⟩ := evicts
    show Fits (replay resting addedOnce.tail) b
    have victim : result? evict (replay resting addedOnce.tail) = some (0, 30) := by decide +kernel
    obtain rfl : b = 0 := congrArg Prod.fst (Option.some.inj ((result?_eq_some.mpr ⟨t, returned⟩).symm.trans victim))
    have sampled : samplePolicy (replay resting addedOnce.tail) ≠ some .pdp := by decide +kernel
    have hinted : ((replay resting addedOnce.tail).freeTable.get? 0).map BlockMetaData.cacheHint =
        some (some rripHint) := by decide +kernel
    have unmapped : (replay resting addedOnce.tail).pdpContentHashToBlockId.items = [] := by decide +kernel
    intro block held
    rw [held] at hinted
    rw [if_neg sampled]
    refine ⟨fun other => (other ?_).elim, by decide +kernel, by decide +kernel, by decide +kernel, ?_⟩
    · rw [Option.some.inj hinted]
      rfl
    · intro h leads
      have member := Dict.mem_items_iff.mpr leads
      rw [unmapped] at member
      cases member
  · cases evicts.1

/-- A block hit under RRIP whose next hint asks for LRU. -/
def hitUnderRrip : List Call :=
  [.op .evict, .op (.update 0 2 (some { id := some 0, useLru := some 1 })),
    .op (.update 0 1 (some rripHint)), .op (.add 0 30 16 0 (some rripHint))]

omit [Numpy] in
/-- The eviction leaves the RRPV of the hit, and the next content under the id starts from it. -/
theorem hitUnderRrip_kept : ¬∀ (numpy : Numpy) (scheduler : EvictionPolicyScheduler)
    (settings : PdpSettings) (lastRefreshTime : Time) (clock : Clock) (history : List Event)
    (s : LRUMLEvictor), Run (@Made numpy) (init scheduler settings lastRefreshTime clock) history s →
      @ForgetsEvicted numpy history := by
  let _ : Numpy := noPrediction
  intro claim
  let calls := .op (.add 0 31 16 3 (some rripHint)) :: hitUnderRrip
  have starts := (claim noPrediction _ _ _ _ _ _ (replay_run resting calls)).starts [] _ _ rfl 0 31 16 3
    (some rripHint) rfl (Or.inl ⟨rfl, ?_⟩)
  · have added : (next? (add 0 31 16 3 (some rripHint)) (replay resting hitUnderRrip)).map
        (fun t => t.rripValues.get? 0) = some (some 0) := by decide +kernel
    obtain ⟨t, reached, kept⟩ := Option.map_eq_some_iff.mp added
    obtain ⟨_, done⟩ := next?_eq_some.mp reached
    have fresh := congrArg Metadata.rrpv (starts t done).metadata
    rw [show (metadata t 0).rrpv = some 0 from kept] at fresh
    cases fresh
  · have victim : result? evict (replay resting hitUnderRrip.tail) = some (0, 30) := by decide +kernel
    obtain ⟨t, returned⟩ := result?_eq_some.mp victim
    exact ⟨30, t, returned⟩

end Vllm.Evictor.LRUMLEvictor
