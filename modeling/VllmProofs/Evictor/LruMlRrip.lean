import VllmProofs.Evictor.LruMlBound

/-!
The scores of RRIP blocks in `LRUMLEvictor`. Whatever the calls, the index stores for an RRIP block
minus its present RRPV, so the first current entry of the index is a block of greatest RRPV.
-/

namespace Vllm.Evictor.LRUMLEvictor
open Exec

structure Graded (s : LRUMLEvictor) : Prop where
  scored : ∀ b block, s.freeTable.get? b = some block →
    getPolicy s.scheduler block.cacheHint = .rrip → block.score = .number (-(rrpv s b : ℚ))
  capped : ∀ b, rrpv s b ≤ rripMaxRrpv

section

variable {s t u : LRUMLEvictor}

/-- No block is new or has another policy, and only RRPVs of blocks that are gone have changed. -/
theorem Graded.frame (graded : Graded s)
    (policy : ∀ hint, getPolicy t.scheduler hint = getPolicy s.scheduler hint)
    (table : ∀ b block, t.freeTable.get? b = some block → s.freeTable.get? b = some block)
    (values : ∀ b, rrpv t b = rrpv s b ∨ t.freeTable.get? b = none ∧ rrpv t b ≤ rripMaxRrpv) :
    Graded t := by
  refine ⟨fun b block found rrip => ?_, fun b => ?_⟩
  · rcases values b with same | ⟨gone, -⟩
    · rw [same]
      exact graded.scored b block (table b block found) (by rwa [← policy])
    · rw [gone] at found
      cases found
  · rcases values b with same | ⟨-, capped⟩
    · rw [same]
      exact graded.capped b
    · exact capped

variable {b : BlockId}

theorem rrpv_of_values (same : t.rripValues.get? b = s.rripValues.get? b) :
    rrpv t b = rrpv s b := by
  rw [rrpv, same, rrpv]

/-- `prepare` gives an RRIP block without RRPV the one it would be scored by anyway. -/
theorem prepare_rrpv (b : BlockId) (h : PrefixHash) (time : Time) (policy : Policy)
    (s : LRUMLEvictor) (c : BlockId) : rrpv (prepare b h time policy s) c = rrpv s c := by
  have same : (prepare b h time policy s).rripValues = (seedRrip b policy s).rripValues := by
    unfold prepare seedFirstAccess seedPdp
    split_ifs <;> rfl
  rw [rrpv_of_values (congrArg (fun values : Dict BlockId ℕ => values.get? c) same)]
  unfold seedRrip
  split
  · rename_i unseeded
    by_cases here : c = b
    · subst here
      simp [rrpv, Dict.not_contains_iff.mp unseeded.2]
    · simp [rrpv, Dict.get?_insert_ne here]
  · rfl

theorem touch_rrpv {policy : Policy} (called : touch b policy s = .ok () u) (graded : Graded s) :
    (∀ c, c ≠ b → rrpv u c = rrpv s c) ∧ ∀ c, rrpv u c ≤ rripMaxRrpv := by
  unfold touch at called
  split at called
  · cases called
    have others {c : BlockId} (different : c ≠ b) :
        rrpv { s with rripValues := s.rripValues.insert b rripHitRrpv } c = rrpv s c :=
      rrpv_of_values (Dict.get?_insert_ne different)
    refine ⟨fun c different => others different, fun c => ?_⟩
    by_cases here : c = b
    · subst here
      simp [rrpv, rripHitRrpv]
    · rw [others here]
      exact graded.capped c
  · have same : ∀ c, rrpv u c = rrpv s c := by
      intro c
      apply rrpv_of_values
      split at called
      · cases called
        show (protectedNow b true s).rripValues.get? c = _
        unfold protectedNow
        split <;> rfl
      · cases called
        rfl
    exact ⟨fun c _ => same c, fun c => by rw [same c]; exact graded.capped c⟩

theorem release_rrpv (b : BlockId) (h : PrefixHash) (policy : Policy) (s : LRUMLEvictor)
    (c : BlockId) : rrpv (release b h policy s) c = rrpv s c ∨
      c = b ∧ rrpv (release b h policy s) c ≤ rripMaxRrpv := by
  unfold release
  split
  · by_cases here : c = b
    · subst here
      exact .inr ⟨rfl, by simp [rrpv, rripHitRrpv]⟩
    · exact .inl (rrpv_of_values (Dict.get?_insert_ne here))
  · split <;> exact .inl rfl

variable [Numpy] {hint : Option CacheHint}

theorem calcScore_rrip {time : Time} {score : Score}
    (called : calcScore b time hint s = .ok score u) (rrip : getPolicy s.scheduler hint = .rrip) :
    score = .number (-(rrpv s b : ℚ)) := by
  rw [calcScore, get_bind, rrip] at called
  cases called
  rfl

theorem rebuild_graded (called : rebuildSortedDict s = .ok () u)
    (capped : ∀ b, rrpv s b ≤ rripMaxRrpv) : Graded u := by
  obtain ⟨-, scored⟩ := rebuildSortedDict_scored called
  obtain ⟨-, table, d, clock, rfl, -, -⟩ := rebuildSortedDict_ok called
  refine ⟨fun b block found rrip => ?_, capped⟩
  obtain ⟨n, v, -, again, -⟩ := scored b block found
  have score := calcScore_rrip again rrip
  exact score

theorem Graded.filed {block : BlockMetaData}
    (policy : ∀ hint, getPolicy t.scheduler hint = getPolicy s.scheduler hint)
    (table : ∀ c, c ≠ b → t.freeTable.get? c = s.freeTable.get? c) (graded : Graded s)
    (values : ∀ c, c ≠ b → rrpv t c = rrpv s c) (capped : ∀ c, rrpv t c ≤ rripMaxRrpv)
    (called : calcScore b block.lastAccessed block.cacheHint t = .ok block.score u) :
    Graded (insertBlock b block u) := by
  have score := calcScore_rrip called
  obtain ⟨-, clock, rfl⟩ := calcScore_ok called
  refine ⟨fun c other found rrip => ?_, capped⟩
  simp only [insertBlock, Dict.get?_insert] at found
  split at found
  · rename_i same
    cases found
    subst same
    exact score rrip
  · rename_i different
    rw [table c different] at found
    show other.score = .number (-(rrpv t c : ℚ))
    rw [values c different]
    exact graded.scored c other found (by rw [← policy]; exact rrip)

theorem Graded.refreshed (graded : Graded s) (called : refreshIfDue s = .ok () u) : Graded u := by
  rcases refreshIfDue_cases called with rfl | ⟨v, w, survival, records, rebuilt, rfl, -, -, rfl⟩
  · exact ⟨graded.scored, graded.capped⟩
  · have rebuilt := rebuild_graded rebuilt graded.capped
    exact ⟨rebuilt.scored, rebuilt.capped⟩

theorem add_graded {h : PrefixHash} {n : ℕ} {time : Time}
    (graded : Graded s) (called : add b h n time hint s = .ok () u) : Graded u := by
  obtain ⟨hint', score, v, w, -, scored, recorded, called⟩ := add_cases called
  obtain ⟨table, -, scheduler⟩ := prepare_frame b h time (getPolicy s.scheduler hint') s
  have values := prepare_rrpv b h time (getPolicy s.scheduler hint') s
  generalize prepare b h time (getPolicy s.scheduler hint') s = x at scored table scheduler values
  have filed : Graded (insertBlock b ⟨h, n, time, hint', score⟩ v) :=
    .filed (fun _ => by rw [scheduler]) (fun c _ => by rw [table]) graded
      (fun c _ => values c) (fun c => by rw [values c]; exact graded.capped c) scored
  obtain ⟨last, rfl⟩ := recordLastAccess_ok recorded
  have recorded : Graded { insertBlock b ⟨h, n, time, hint', score⟩ v with idToLastAccess := last } :=
    ⟨filed.scored, filed.capped⟩
  exact recorded.refreshed called

theorem update_graded {time : Time} (graded : Graded s)
    (called : update b time hint s = .ok () u) : Graded u := by
  obtain ⟨block, hint', d, v, score, w, -, -, -, touched, scored, called⟩ := update_cases called
  obtain ⟨table, -, scheduler, -⟩ := touch_frame touched
  obtain ⟨values, capped⟩ := touch_rrpv touched ⟨graded.scored, graded.capped⟩
  have filed : Graded (insertBlock b { block with lastAccessed := time, cacheHint := hint', score } w) :=
    .filed (s := s) (fun _ => by rw [scheduler]) (fun c _ => by rw [table]) graded values capped
      scored
  obtain ⟨last, rfl⟩ := recordLastAccess_ok called
  exact ⟨filed.scored, filed.capped⟩

omit [Numpy] in
theorem remove_graded (graded : Graded s) (called : remove b s = .ok () u) : Graded u := by
  obtain ⟨block, d, -, rfl⟩ := remove_cases called
  have values := release_rrpv b block.contentHash (getPolicy s.scheduler block.cacheHint) s
  have scheduler := (release_frame b block.contentHash (getPolicy s.scheduler block.cacheHint) s).scheduler
  refine graded.frame (fun _ => by rw [scheduler]) (fun c other found => (get?_of_erase found).2) fun c => ?_
  refine (values c).imp_right ?_
  rintro ⟨rfl, capped⟩
  exact ⟨Dict.get?_erase_self _ _, capped⟩

omit [Numpy] in
theorem ageEach_capped {scheduler : EvictionPolicyScheduler}
    (items : List (BlockId × BlockMetaData)) {values : Dict BlockId ℕ}
    (capped : ∀ b, (values.get? b).getD rripInsertRrpv ≤ rripMaxRrpv) (b : BlockId) :
    ((ageEach scheduler items values).get? b).getD rripInsertRrpv ≤ rripMaxRrpv := by
  induction items generalizing values with
  | nil => exact capped b
  | cons item rest ih =>
    obtain ⟨c, block⟩ := item
    simp only [ageEach]
    split
    · refine ih fun d => ?_
      rw [Dict.get?_insert]
      split
      · exact min_le_left _ _
      · exact capped d
    · exact ih capped

theorem age_graded (graded : Graded s) (called : ageRripBlocks s = .ok () u) : Graded u := by
  rw [ageRripBlocks, modify_bind] at called
  exact rebuild_graded called fun b => ageEach_capped s.freeTable.items graded.capped b

theorem age_rrpv {block : BlockMetaData} (called : ageRripBlocks s = .ok () u)
    (resident : s.freeTable.get? b = some block) (rrip : getPolicy s.scheduler block.cacheHint = .rrip) :
    rrpv u b = min rripMaxRrpv (rrpv s b + 1) := by
  rw [ageRripBlocks, modify_bind] at called
  obtain ⟨-, table, d, clock, rfl, -, -⟩ := rebuildSortedDict_ok called
  have value := ageEach_rrip s.rripValues s.freeTable.nodup (Dict.mem_items_iff.mpr resident) rrip
  simp [rrpv, value]

omit [Numpy] in
theorem takenOut_rrpv {c : BlockId} (policy : Policy) (different : c ≠ b) (s : LRUMLEvictor) :
    rrpv (takenOut b policy s) c = rrpv s c := by
  apply rrpv_of_values
  simp only [takenOut]
  split
  · exact Dict.get?_erase_ne different
  · rfl

theorem evict_graded {victim : BlockId × PrefixHash} (graded : Graded s)
    (called : evict s = .ok victim u) : Graded u := by
  refine evict_rule (P := Graded) (fun _ _ _ _ graded => ⟨graded.scored, graded.capped⟩)
    (fun _ _ graded => ⟨graded.scored, graded.capped⟩) (fun _ _ graded called => age_graded graded called)
    ?_ ?_ graded called
  · exact fun t b h graded => graded.frame (fun _ => rfl) (fun _ _ found => (get?_of_erase found).2)
      fun _ => .inl rfl
  · refine fun t b policy graded => graded.frame (fun _ => rfl)
      (fun _ _ found => (get?_of_erase found).2) fun c => ?_
    by_cases here : c = b
    · subst here
      have capped := graded.capped c
      refine .inr ⟨Dict.get?_erase_self _ _, ?_⟩
      unfold takenOut rrpv
      split
      · simp [rripInsertRrpv]
      · exact capped
    · exact .inl (takenOut_rrpv policy here t)

omit [Numpy] in
theorem pdpObserve_fixes (h : PrefixHash) (hit : Option Bool) :
    Fixes (fun s => (s.rripValues, s.idToLastAccess, s.toDeleteBlocks)) (pdpObserve h hit) := by
  have reuse : Fixes (fun s => (s.rripValues, s.idToLastAccess, s.toDeleteBlocks)) (recordReuse h) := by
    refine Keeps.bind .get fun _ => ?_
    split
    · exact .pure _
    · exact .bind (.bind .get fun _ => bucketed_keeps _ _) fun _ => .modify fun _ => rfl
  have holder (reused : Bool) :
      Fixes (fun s => (s.rripValues, s.idToLastAccess, s.toDeleteBlocks)) (protectHolder h reused) := by
    refine Keeps.bind .get fun _ => ?_
    split
    · exact .pure _
    · refine .ite (.modify fun s => ?_) (.pure _)
      unfold protectedNow
      split <;> rfl
  have recompute :
      Fixes (fun s => (s.rripValues, s.idToLastAccess, s.toDeleteBlocks)) recomputeIfDue :=
    Keeps.bind .get fun _ => .bind (divides_keeps _ _) fun _ => .ite
      (.bind .get fun _ => .bind (bestProtectingDistance_keeps _ _ _ _) fun _ =>
        .modify fun _ => rfl) (.pure _)
  exact Keeps.bind (.modify fun _ => rfl) fun _ => .bind .get fun _ => .bind reuse fun _ =>
    .bind (.modify fun _ => rfl) fun _ => .bind (holder _) fun _ => recompute

omit [Numpy] in
theorem rebindEach_capped {policy : Policy} {items : List (BlockId × BlockMetaData)}
    (capped : ∀ b, rrpv s b ≤ rripMaxRrpv) (called : rebindEach policy items s = .ok () u)
    (b : BlockId) : rrpv u b ≤ rripMaxRrpv := by
  induction items generalizing s with
  | nil =>
    obtain ⟨-, rfl⟩ := pure_ok called
    exact capped b
  | cons item rest ih =>
    obtain ⟨c, block⟩ := item
    cases hinted : block.cacheHint with
    | none => simp [rebindEach, hinted] at called
    | some hint =>
      simp only [rebindEach, hinted, modify_bind] at called
      refine ih (fun d => ?_) called
      have before := capped d
      unfold rebindBlock
      dsimp only
      split_ifs
      · simp only [rrpv, Dict.get?_insert]
        split
        · simp [rripInsertRrpv]
        · exact before
      · exact before
      · exact before

theorem rebind_graded (enabled : s.scheduler.enabled = true)
    (called : rebindSchedulerPolicyForExistingBlocks s = .ok () u) : Graded u := by
  rcases rebind_cases called with ⟨disabled, -⟩ | ⟨-, v, bound, -, -, -, called⟩
  · rw [enabled] at disabled
    cases disabled
  refine rebuild_graded called fun b => rebindEach_capped (fun c => ?_) bound b
  unfold seed
  dsimp only
  split_ifs <;> simp [rrpv, rripInsertRrpv]

theorem observe_graded {h : PrefixHash} {hit : Option Bool}
    (graded : Graded s) (called : observeCacheAccess h hint hit s = .ok () u) : Graded u := by
  rcases observe_cases called with ⟨scheduler, clock, enabled, observed, rfl⟩ |
    ⟨scheduler, clock, enabled, observed, rebound⟩ | observed | rfl
  · have spec := (EvictionPolicyScheduler.observe_wp enabled).ok observed
    have same : scheduler.enabled = s.scheduler.enabled ∧
        scheduler.currentPolicy = s.scheduler.currentPolicy := by
      cases spec <;> exact ⟨rfl, rfl⟩
    exact graded.frame (getPolicy_mode same.1 same.2) (fun _ _ found => found) fun _ => .inl rfl
  · have spec := (EvictionPolicyScheduler.observe_wp enabled).ok observed
    have enabled : scheduler.enabled = true := by
      cases spec
      exact enabled
    exact rebind_graded (s := { s with scheduler, clock }) enabled rebound
  · have frame := pdpObserve_keeps h hit _ _ _ observed
    have values : u.rripValues = s.rripValues := congrArg Prod.fst (pdpObserve_fixes h hit _ _ _ observed)
    refine graded.frame (fun _ => by rw [frame.scheduler]) (fun b block found => ?_) fun b => ?_
    · rwa [← frame.table]
    · exact .inl (rrpv_of_values (by rw [values]))
  · exact graded

def Returned (s : LRUMLEvictor) (c : Call) (t : LRUMLEvictor) : Prop := c.run s = .ok () t

theorem returned_graded {c : Call} (graded : Graded s) (returned : Returned s c t) : Graded t := by
  cases c with
  | op op =>
    cases op with
    | add b h n time hint => exact add_graded graded (show add b h n time hint s = _ from returned)
    | update b time hint => exact update_graded graded (show update b time hint s = _ from returned)
    | remove b => exact remove_graded graded (show remove b s = _ from returned)
    | observe h hint hit =>
      exact observe_graded graded (show observeCacheAccess h hint hit s = _ from returned)
    | evict =>
      obtain ⟨victim, evicted⟩ := evict_of_call returned
      exact evict_graded graded evicted
  | setCapacity capacity =>
    obtain ⟨⟨scheduler, clock⟩, set, rfl⟩ := zoom_ok
      (show onScheduler (EvictionPolicyScheduler.setCapacity capacity) s = _ from returned)
    have same := setCapacity_mode capacity _ _ _ set
    exact graded.frame (getPolicy_mode (congrArg Prod.fst same) (congrArg Prod.snd same))
      (fun _ _ found => found) fun _ => .inl rfl

end
end Vllm.Evictor.LRUMLEvictor
