import VllmProofs.Evictor.LruMlRun
import VllmProofs.Evictor.ShadowAccess

/-!
`LRUMLEvictor` as long as no score is nan. A score that is nan leaves its mark on the clock, so without the mark every
resident block has a score that can be compared, and `evict` is right about its victim.
-/

namespace Vllm.Evictor.LRUMLEvictor
open Exec

/-! ### What only a few calls change -/

theorem ml_time_ticks : Keeps (fun s t : LRUMLEvictor => Ticks s.clock t.clock) time := by
  intro s now u called
  obtain ⟨-, rfl⟩ := ml_time_ok called
  exact ⟨rfl, Nat.le_succ _, id⟩

variable {s u : LRUMLEvictor} {hint : Option CacheHint}

theorem recordLastAccess_ok {t : Time} (call : recordLastAccess hint t s = .ok () u) :
    ∃ last, u = { s with idToLastAccess := last } := by
  cases hint with
  | none => cases call
  | some hint =>
    cases found : hint.id with
    | none => simp [recordLastAccess, found] at call
    | some id =>
      simp only [recordLastAccess, found] at call
      cases call
      exact ⟨_, rfl⟩

variable {b : BlockId}

theorem prepare_clock (b : BlockId) (h : PrefixHash) (t : Time) (policy : Policy)
    (s : LRUMLEvictor) : (prepare b h t policy s).clock = s.clock := by
  unfold prepare seedFirstAccess seedPdp seedRrip
  split_ifs <;> rfl

theorem touch_clock {policy : Policy}
    (called : touch b policy s = .ok () u) : u.clock = s.clock := by
  by_cases rrip : policy = .rrip
  · rw [touch, if_pos rrip] at called
    cases called
    rfl
  · by_cases pdp : policy = .pdp
    · rw [touch, if_neg rrip, if_pos pdp] at called
      cases called
      show (protectedNow b true s).clock = s.clock
      unfold protectedNow
      split <;> rfl
    · rw [touch, if_neg rrip, if_neg pdp] at called
      cases called
      rfl

theorem release_clock (b : BlockId) (h : PrefixHash) (policy : Policy) (s : LRUMLEvictor) :
    (release b h policy s).clock = s.clock := by
  unfold release
  split_ifs <;> rfl

theorem get?_of_erase {table : Dict BlockId BlockMetaData} {c : BlockId} {block : BlockMetaData}
    (found : (table.erase b).get? c = some block) : c ≠ b ∧ table.get? c = some block := by
  rw [Dict.get?_erase] at found
  split at found
  · cases found
  · exact ⟨by assumption, found⟩

theorem seed_clock (policy : Policy) (s : LRUMLEvictor) : (seed policy s).clock = s.clock := by
  unfold seed
  dsimp only
  split_ifs <;> rfl

theorem rebindEach_fixes {τ : Type} (view : LRUMLEvictor → τ) (policy : Policy)
    (each : ∀ b block hint s, view (rebindBlock policy b block hint s) = view s)
    (items : List (BlockId × BlockMetaData)) : Fixes view (rebindEach policy items) := by
  induction items with
  | nil => exact Keeps.pure _
  | cons item rest ih =>
    obtain ⟨b, block⟩ := item
    unfold rebindEach
    split
    · exact .throw _
    · exact Keeps.bind (.modify fun s => each b block _ s) fun _ => ih

theorem pdpObserve_ticks (h : PrefixHash) (hit : Option Bool) :
    Keeps (fun s t : LRUMLEvictor => Ticks s.clock t.clock) (pdpObserve h hit) := by
  have reuse : Keeps (fun s t : LRUMLEvictor => Ticks s.clock t.clock) (recordReuse h) := by
    refine .bind .get fun _ => ?_
    split
    · exact .pure _
    · exact .bind (.bind .get fun _ => bucketed_keeps _ _) fun _ => .modify fun _ => .refl _
  have holder (reused : Bool) :
      Keeps (fun s t : LRUMLEvictor => Ticks s.clock t.clock) (protectHolder h reused) := by
    refine .bind .get fun _ => ?_
    split
    · exact .pure _
    · refine .ite (.modify fun s => ?_) (.pure _)
      unfold protectedNow
      split <;> exact .refl _
  have recompute : Keeps (fun s t : LRUMLEvictor => Ticks s.clock t.clock) recomputeIfDue :=
    .bind .get fun _ => .bind (divides_keeps _ _) fun _ => .ite
      (.bind .get fun _ => .bind (bestProtectingDistance_keeps _ _ _ _) fun _ =>
        .modify fun _ => .refl _) (.pure _)
  exact .bind (.modify fun _ => .refl _) fun _ => .bind .get fun _ => .bind reuse fun _ =>
    .bind (.modify fun _ => .refl _) fun _ => .bind (holder _) fun _ => recompute

variable [Numpy] {victim : BlockId × PrefixHash}

/-- What popping a record, rebuilding the index and ageing keep, a search for a victim keeps. -/
theorem selectVictim_rule {P : LRUMLEvictor → Prop} {rounds : ℕ}
    (pop : ∀ s record rest, s.toDeleteBlocks = record :: rest → P s → P { s with toDeleteBlocks := rest })
    (index : ∀ s d, P s → P { s with sortedDict := d })
    (age : ∀ s u, P s → ageRripBlocks s = .ok () u → P u) (holds : P s)
    (called : selectVictim rounds s = .ok victim u) : P u := by
  induction rounds generalizing s with
  | zero => cases called
  | succ rounds ih =>
    rw [selectVictim, get_bind] at called
    cases records : s.toDeleteBlocks with
    | cons record rest =>
      simp only [records, set_bind] at called
      have popped := pop s record rest records holds
      split at called
      · obtain ⟨-, rfl⟩ := pure_ok called
        exact popped
      · exact ih popped called
    | nil =>
      simp only [records] at called
      obtain ⟨candidate, v, peeked, called⟩ := bind_ok called
      rw [peekValidCandidate, get_bind, set_bind] at peeked
      obtain ⟨rfl, rfl⟩ := pure_ok peeked
      generalize s.sortedDict.dropWhile (fun item => !current s.freeTable item) = d at called
      have peeked := index s d holds
      cases first : d.first?.map Prod.snd with
      | none =>
        rw [first] at called
        cases called
      | some candidate =>
        simp only [first] at called
        split at called
        · obtain ⟨_, v, ageing, called⟩ := bind_ok called
          exact ih (age _ v peeked ageing) called
        · obtain ⟨_, v, removed, called⟩ := bind_ok called
          obtain ⟨d', rfl⟩ := removeFromSortedDict_index removed
          obtain ⟨-, rfl⟩ := pure_ok called
          exact index _ d' peeked

/-- What taking the victim out keeps besides, an eviction keeps. -/
theorem evict_rule {P : LRUMLEvictor → Prop}
    (pop : ∀ s record rest, s.toDeleteBlocks = record :: rest → P s → P { s with toDeleteBlocks := rest })
    (index : ∀ s d, P s → P { s with sortedDict := d })
    (age : ∀ s u, P s → ageRripBlocks s = .ok () u → P u)
    (outPdp : ∀ s b h, P s → P (takeOutPdp b h s)) (out : ∀ s b policy, P s → P (takenOut b policy s))
    (holds : P s) (called : evict s = .ok victim u) : P u := by
  cases sampled : samplePolicy s with
  | none =>
    rw [evict, get_bind, sampled] at called
    cases called
  | some policy =>
    by_cases pdp : policy = .pdp
    · subst pdp
      rw [evict, get_bind, sampled] at called
      simp only [evictPdp, get_bind] at called
      cases least : s.freeTable.items.argmin fun item => pdpVictimKey s item.1 item.2 with
      | none =>
        rw [least] at called
        cases called
      | some item =>
        simp only [least] at called
        obtain ⟨_, v, removed, called⟩ := bind_ok called
        obtain ⟨d, rfl⟩ := removeFromSortedDict_index removed
        cases called
        exact outPdp _ _ _ (index s d holds)
    · rw [evict_search sampled pdp] at called
      obtain ⟨chosen, v, selected, called⟩ := bind_ok called
      obtain ⟨_, w, taken, called⟩ := bind_ok called
      obtain ⟨-, rfl⟩ := pure_ok called
      have selected := selectVictim_rule pop index age holds selected
      rw [takeOut, get_bind] at taken
      cases resident : v.freeTable.get? chosen.1 with
      | none =>
        rw [resident] at taken
        cases taken
      | some block =>
        simp only [resident] at taken
        cases taken
        exact out v _ _ selected

/-! ### The mark of a nan -/

omit [Numpy] in
/-- The scores that are nan. -/
theorem probabilityOfFutureArrival_eq_nan_iff {npExp : ℚ → WithTop ℚ} {p expScale elapsedTime : ℚ} :
    probabilityOfFutureArrival npExp (.number p) expScale elapsedTime = .nan ↔ p ≠ 0 ∧ expScale ≠ 0 ∧
      (npExp (-elapsedTime / expScale) = ⊤ ∨ p = 1 ∧ npExp (-elapsedTime / expScale) = (0 : ℚ)) := by
  unfold probabilityOfFutureArrival
  by_cases guarded : p = 0 ∨ expScale = 0
  · rw [if_pos (guarded.imp_left (congrArg Score.number))]
    simp only [Score.number_ne_nan, false_iff]
    tauto
  · obtain ⟨nonzero, scaled⟩ := not_or.mp guarded
    rw [if_neg (by simpa using guarded)]
    cases left : npExp (-elapsedTime / expScale) with
    | top => simp [Score.number, nonzero, scaled]
    | coe x =>
      have quotient : Score.divide (p * x) (p * x + (1 - p)) = .nan ↔ p = 1 ∧ x = 0 := by
        unfold Score.divide
        split_ifs with none zero
        · have gone : x = 0 := (mul_eq_zero.mp zero).resolve_left nonzero
          rw [gone, mul_zero, zero_add, sub_eq_zero] at none
          simp [none, gone]
        · refine iff_of_false (by unfold Score.infinity; split <;> simp [Score.nan]) ?_
          rintro ⟨-, rfl⟩
          exact zero (mul_zero p)
        · refine iff_of_false (Score.number_ne_nan _) ?_
          rintro ⟨rfl, rfl⟩
          exact none (by simp)
      simpa [Score.number, nonzero, scaled] using quotient

/-- Unless the clock is marked, no resident block's score is nan. -/
def Noted (s : LRUMLEvictor) : Prop := s.clock.sawNan = false → Numeric s

def NotedStep (s t : LRUMLEvictor) : Prop := Noted s → Noted t

instance : IsPreorder LRUMLEvictor NotedStep where
  refl _ := id
  trans _ _ _ first second := second ∘ first

section
omit [Numpy]
variable {s t u : LRUMLEvictor}

/-- No mark is erased, and no score is new. -/
theorem noted_frame (marks : s.clock.sawNan = true → t.clock.sawNan = true)
    (table : ∀ b block, t.freeTable.get? b = some block →
      ∃ held, s.freeTable.get? b = some held ∧ held.score = block.score) : NotedStep s t := by
  intro noted clean b block found
  have before : s.clock.sawNan = false := by
    by_contra marked
    rw [marks (by simpa using marked)] at clean
    cases clean
  obtain ⟨held, resident, same⟩ := table b block found
  rw [← same]
  exact noted before b held resident

theorem noted_same (clock : t.clock = s.clock) (table : t.freeTable = s.freeTable) : NotedStep s t :=
  noted_frame (by rw [clock]; exact id) fun _ block found => ⟨block, by rwa [← table], rfl⟩

theorem noted_erase (clock : t.clock = s.clock) (table : t.freeTable = s.freeTable.erase b) :
    NotedStep s t :=
  noted_frame (by rw [clock]; exact id) fun c block found => ⟨block, (get?_of_erase (table ▸ found)).2, rfl⟩

end

variable {s t u : LRUMLEvictor} {lastAccessed : Time}

theorem calcScore_clock {score : Score}
    (called : calcScore b lastAccessed hint s = .ok score u) : ∃ reads, u =
      { s with clock := { s.clock with reads, sawNan := s.clock.sawNan || decide (score = .nan) } } := by
  have number : ∀ x : ℚ, (.ok (Score.number x) s : EStateM.Result PyError LRUMLEvictor Score) = .ok score u →
      ∃ reads, u =
        { s with clock := { s.clock with reads, sawNan := s.clock.sawNan || decide (score = .nan) } } := by
    intro x same
    cases same
    exact ⟨s.clock.reads, by simp⟩
  rw [calcScore, get_bind] at called
  cases policy : getPolicy s.scheduler hint <;> simp only [policy] at called
  case rrip | lru | pdp => exact number _ called
  case fifo =>
    cases found : s.idToFirstAccess.get? b <;> simp only [found] at called
    · cases called
    · exact number _ called
  case belady =>
    cases found : hint.bind CacheHint.nextTimestamp <;> simp only [found] at called
    · cases called
    · exact number _ called
  case ml =>
    cases prob : hint.bind CacheHint.probHasNext <;> simp only [prob] at called
    · exact number _ called
    cases scale : hint.bind CacheHint.expScale <;> simp only [scale] at called
    · cases called
    obtain ⟨now, v, timed, called⟩ := bind_ok called
    obtain ⟨-, rfl⟩ := ml_time_ok timed
    rw [noted_ok] at called
    cases called
    exact ⟨_, rfl⟩

/-- A block is filed under the score it was given. -/
theorem scored_noted (block : BlockMetaData)
    (called : calcScore b lastAccessed hint s = .ok block.score u)
    (table : t.freeTable = s.freeTable.insert b block) (clock : t.clock = u.clock) : NotedStep s t := by
  obtain ⟨reads, rfl⟩ := calcScore_clock called
  intro noted clean c other found
  rw [clock] at clean
  obtain ⟨before, number⟩ := Bool.or_eq_false_iff.mp clean
  rw [table, Dict.get?_insert] at found
  split at found
  · cases found
    exact of_decide_eq_false number
  · exact noted before c other found

theorem rebuildEach_noted (items : List (BlockId × BlockMetaData)) (d : SortedDict ScoreKey (BlockId × PrefixHash)) :
    Keeps NotedStep (rebuildEach items d) := by
  induction items generalizing d with
  | nil => exact .pure _
  | cons item rest ih =>
    obtain ⟨b, block⟩ := item
    intro s d' u called
    obtain ⟨score, v, scored, called⟩ := bind_ok called
    rw [modify_bind] at called
    have filed : NotedStep s { v with freeTable := v.freeTable.insert b { block with score } } := by
      obtain ⟨-, clock, rfl⟩ := calcScore_ok scored
      exact scored_noted { block with score } scored rfl rfl
    exact fun noted => ih _ _ _ _ called (filed noted)

theorem rebuildSortedDict_noted : Keeps NotedStep rebuildSortedDict :=
  .bind .get fun _ => .bind (rebuildEach_noted _ _) fun _ => .modify fun _ => noted_same rfl rfl

/-! ### Each call notes a nan -/

theorem refreshIfDue_noted : Keeps NotedStep refreshIfDue := by
  have ticks : Keeps NotedStep time := by
    intro s now t called
    obtain ⟨-, rfl⟩ := ml_time_ok called
    exact noted_frame id fun _ block found => ⟨block, found, rfl⟩
  have outdated (survival : List (BlockId × ℤ × Time)) : Keeps NotedStep (markOutdated survival) := by
    intro s _ t called
    obtain ⟨records, rfl⟩ := markOutdated_ok called
    exact noted_same rfl rfl
  have listing (items : List (BlockId × BlockMetaData)) : Keeps NotedStep (survivalList items) := by
    intro s _ t called
    obtain rfl := survivalList_ok called
    exact id
  exact .bind ticks fun _ => .bind .get fun _ => .ite (.bind rebuildSortedDict_noted fun _ => .bind ticks fun _ =>
    .bind (.modify fun _ => noted_same rfl rfl) fun _ => .bind .get fun _ => .bind (listing _) fun _ => outdated _)
    (.pure _)

omit [Numpy] in
theorem recordLastAccess_noted (hint : Option CacheHint) (lastAccessed : Time) :
    Keeps NotedStep (recordLastAccess hint lastAccessed) := by
  intro s _ t called
  obtain ⟨last, rfl⟩ := recordLastAccess_ok called
  exact noted_same rfl rfl

theorem add_noted {h : PrefixHash} {n : ℕ}
    (called : add b h n lastAccessed hint s = .ok () u) : NotedStep s u := by
  obtain ⟨hint', score, v, w, -, scored, recorded, called⟩ := add_cases called
  obtain ⟨table, -, -⟩ := prepare_frame b h lastAccessed (getPolicy s.scheduler hint') s
  have clock := prepare_clock b h lastAccessed (getPolicy s.scheduler hint') s
  generalize prepare b h lastAccessed (getPolicy s.scheduler hint') s = x at scored table clock
  have filed : NotedStep x (insertBlock b ⟨h, n, lastAccessed, hint', score⟩ v) := by
    obtain ⟨-, clock, rfl⟩ := calcScore_ok scored
    exact scored_noted ⟨h, n, lastAccessed, hint', score⟩ scored rfl rfl
  have recorded := recordLastAccess_noted _ _ _ _ _ recorded
  exact refreshIfDue_noted _ _ _ called ∘ recorded ∘ filed ∘ noted_same clock table

theorem update_noted (called : update b lastAccessed hint s = .ok () u) : NotedStep s u := by
  obtain ⟨block, hint', d, v, score, w, -, -, -, touched, scored, called⟩ := update_cases called
  have same : NotedStep s v :=
    noted_same ((touch_clock touched).trans rfl) ((touch_frame touched).table.trans rfl)
  have filed : NotedStep v (insertBlock b { block with lastAccessed, cacheHint := hint', score } w) := by
    obtain ⟨-, clock, rfl⟩ := calcScore_ok scored
    exact scored_noted { block with lastAccessed, cacheHint := hint', score } scored rfl rfl
  exact recordLastAccess_noted _ _ _ _ _ called ∘ filed ∘ same

omit [Numpy] in
theorem remove_noted (called : remove b s = .ok () u) : NotedStep s u := by
  obtain ⟨block, d, -, rfl⟩ := remove_cases called
  exact noted_erase (b := b) (release_clock b block.contentHash _ s) rfl

theorem evict_noted (called : evict s = .ok victim u) : NotedStep s u := by
  intro noted
  refine evict_rule (P := Noted) ?_ ?_ ?_ ?_ ?_ noted called
  · exact fun t record rest _ noted => noted_same rfl rfl noted
  · exact fun t d noted => noted_same rfl rfl noted
  · intro t v noted called
    rw [ageRripBlocks, modify_bind] at called
    exact rebuildSortedDict_noted _ _ _ called (noted_same rfl rfl noted)
  · exact fun t b h noted => noted_erase (s := t) (b := b) rfl rfl noted
  · exact fun t b policy noted => noted_erase (s := t) (b := b) rfl rfl noted

theorem rebind_noted (called : rebindSchedulerPolicyForExistingBlocks s = .ok () u) : NotedStep s u := by
  rcases rebind_cases called with ⟨-, rfl⟩ | ⟨-, v, bound, -, table, -, called⟩
  · exact id
  have clocks := rebindEach_fixes LRUMLEvictor.clock s.scheduler.currentPolicy
    (fun b block hint s => by unfold rebindBlock; dsimp only; split_ifs <;> rfl) s.freeTable.items
  have clock : v.clock = s.clock := (clocks _ _ _ bound).trans (seed_clock _ s)
  have rebound : NotedStep s { v with toDeleteBlocks := [] } := by
    refine noted_frame (by rw [clock]; exact id) fun b block found => ?_
    rw [table] at found
    obtain ⟨held, old, rfl⟩ := Option.map_eq_some_iff.mp found
    exact ⟨held, old, rfl⟩
  exact rebuildSortedDict_noted _ _ _ called ∘ rebound

theorem observe_noted {h : PrefixHash} {hit : Option Bool}
    (called : observeCacheAccess h hint hit s = .ok () u) : NotedStep s u := by
  have observing {finalizedNow : Bool} {scheduler : EvictionPolicyScheduler} {clock : Clock}
      (observed : EvictionPolicyScheduler.observe h hint hit (s.scheduler, s.clock) =
        .ok finalizedNow (scheduler, clock)) : NotedStep s { s with scheduler, clock } :=
    noted_frame (EvictionPolicyScheduler.observe_timely h hint hit _ _ _ observed).sawNan
      fun _ block found => ⟨block, found, rfl⟩
  rcases observe_cases called with ⟨scheduler, clock, -, observed, rfl⟩ |
    ⟨scheduler, clock, -, observed, rebound⟩ | observed | rfl
  · exact observing observed
  · exact rebind_noted rebound ∘ observing observed
  · have frame := pdpObserve_keeps h hit _ _ _ observed
    exact noted_frame (pdpObserve_ticks h hit _ _ _ observed).sawNan fun _ block found =>
      ⟨block, by rwa [← frame.table], rfl⟩
  · exact id

theorem call_noted {op : Op} (called : call op s = .ok () u) : NotedStep s u := by
  cases op with
  | add b h n t hint => exact add_noted (show add b h n t hint s = _ from called)
  | update b t hint => exact update_noted (show update b t hint s = _ from called)
  | remove b => exact remove_noted (show remove b s = _ from called)
  | observe h hint hit => exact observe_noted (show observeCacheAccess h hint hit s = _ from called)
  | evict =>
    obtain ⟨victim, evicted⟩ := evict_of_call called
    exact evict_noted evicted

/-! ### Runs -/

/-- A call of a run without a nan: where a score is nan, the index loses its order, and the model does not follow it
there. -/
def NumericStep (s : LRUMLEvictor) (op : Op) (t : LRUMLEvictor) : Prop := Step s op t ∧ t.clock.sawNan = false

/-- `evict` raises exactly on an empty table and otherwise takes out one resident block, and no
call misses the index entry it looks for. -/
structure Sound (s : LRUMLEvictor) : Prop where
  raises : s.freeTable.size = 0 → evict s = .error noUsableMemory s
  evicts : s.freeTable.size ≠ 0 → (after evict s).clock.sawNan = false → ∃ b hash t, evict s = .ok (b, hash) t ∧
    s.freeTable.contains b = true ∧ Rescored (s.freeTable.erase b) t.freeTable
  finds : ∀ op u, call op s ≠ .error scoreNotFound u

/-- `evict` returns a block with the content hash it was most recently added with. -/
def EvictsLatest (history : List Op) (s : LRUMLEvictor) : Prop :=
  ∀ b hash t, evict s = .ok (b, hash) t → lastAdded b history = some hash

omit [Numpy] in
theorem hashCurrent_empty (empty : s.freeTable.size = 0) : HashCurrent s := by
  refine Or.inr fun record _ block resident => ?_
  rw [Dict.size_eq_zero_iff.mp empty] at resident
  cases resident

theorem evictsLatest_iff {history : List Op} (inv : Inv s) (numeric : Numeric s)
    (remembers : Remembers history s) : EvictsLatest history s ↔ HashCurrent s := by
  by_cases empty : s.freeTable.size = 0
  · refine ⟨fun _ => hashCurrent_empty empty, fun _ b hash t evicted => ?_⟩
    rw [evict_empty empty] at evicted
    cases evicted
  · obtain ⟨b, hash, block, t, evicted, resident, current, -⟩ := evict_ok inv numeric empty
    rw [← current]
    constructor
    · intro latest
      have known := latest b hash t evicted
      rw [remembers b block resident] at known
      exact Option.some.inj known
    · intro same c hash' u again
      rw [evicted] at again
      cases again
      rw [remembers b block resident, same]

theorem sound_of_inv (inv : Inv s) (numeric : Numeric s) : Sound s := by
  refine ⟨evict_empty, fun nonempty _ => ?_, fun op u => call_finds inv numeric op u⟩
  obtain ⟨b, hash, block, t, evicted, resident, -, rescored, -⟩ := evict_ok inv numeric nonempty
  exact ⟨b, hash, t, evicted, Dict.contains_iff.mpr ⟨block, resident⟩, rescored⟩

/-- After any run without a nan, `evict` is right about everything but perhaps the hash, and about the hash exactly
when the newest record about a resident block is not one of an earlier content. -/
theorem run_evict {scheduler : EvictionPolicyScheduler} {settings : PdpSettings}
    {lastRefreshTime : Time} {clock : Clock} {history : List Op} {s : LRUMLEvictor}
    (run : Run NumericStep (init scheduler settings lastRefreshTime clock) history s) :
    Sound s ∧ ((after evict s).clock.sawNan = false → (EvictsLatest history s ↔ HashCurrent s)) := by
  have all : Inv s ∧ Numeric s ∧ Remembers history s := by
    refine run.invariant (I := fun h s => Inv s ∧ Numeric s ∧ Remembers h s) ⟨init_inv _ _ _ _, ?_, ?_⟩ ?_
    · intro b block resident
      cases resident
    · intro b block resident
      cases resident
    · rintro h t op u ⟨inv, numeric, remembers⟩ ⟨stepped, clean⟩
      obtain ⟨kept, remembers⟩ := call_ok inv numeric remembers stepped
      exact ⟨kept, call_noted stepped (fun _ => numeric) clean, remembers⟩
  exact ⟨sound_of_inv all.1 all.2.1, fun _ => evictsLatest_iff all.1 all.2.1 all.2.2⟩

/-- No scheduler, and a clock that is past the inspection interval from its second reading on. -/
def unscheduled : LRUMLEvictor := init {} {} 0 { readings := fun n => if n = 0 then 0 else 10 }

/-- Block 1 is marked outdated, and added again at the same time with another content. -/
def reusedBlock : List Op :=
  [.add 1 30 16 1 (some { id := some 9 }), .remove 1, .add 2 20 16 2 (some { id := some 7 }),
    .add 1 10 16 1 (some { id := some 7 })]

def nextNumeric? (s : LRUMLEvictor) (op : Op) : Option LRUMLEvictor :=
  (next? (call op) s).filter fun t => t.clock.sawNan = false

theorem nextNumeric?_step {t : LRUMLEvictor} {op : Op} (next : nextNumeric? s op = some t) : NumericStep s op t := by
  obtain ⟨stepped, clean⟩ := Option.filter_eq_some_iff.mp next
  obtain ⟨_, called⟩ := next?_eq_some.mp stepped
  exact ⟨called, of_decide_eq_true clean⟩

omit [Numpy] in
theorem reusedBlock_run : ∃ s, Run (@NumericStep noPrediction) unscheduled reusedBlock s ∧
    result? (@evict noPrediction) s = some (1, 10) ∧ (after (@evict noPrediction) s).clock.sawNan = false := by
  obtain ⟨s, run, ends⟩ := Run.exists_of_execute (s := unscheduled) (h := reusedBlock) (f := @nextNumeric? noPrediction)
    (P := fun s => result? (@evict noPrediction) s = some (1, 10) ∧
      (after (@evict noPrediction) s).clock.sawNan = false) (by decide +kernel)
  exact ⟨s, run.mono fun _ _ _ next => @nextNumeric?_step noPrediction _ _ _ next, ends⟩

omit [Numpy] in
/-- The record of the old content is taken: the block comes back under the hash it lost. -/
theorem reusedBlock_outdated : ¬ ∀ (numpy : Numpy) (scheduler : EvictionPolicyScheduler)
    (settings : PdpSettings) (lastRefreshTime : Time) (clock : Clock) (history : List Op)
    (s : LRUMLEvictor), Run (@Step numpy) (init scheduler settings lastRefreshTime clock) history s →
    @Sound numpy s ∧ @EvictsLatest numpy history s := by
  intro claim
  obtain ⟨s, run, evicted, -⟩ := reusedBlock_run
  obtain ⟨t, evicted⟩ := result?_eq_some.mp evicted
  have latest := (claim _ _ _ _ _ _ _ (run.mono fun _ _ _ stepped => stepped.1)).2 1 10 t evicted
  simp [reusedBlock, lastAdded] at latest

omit [Numpy] in
theorem run_evict_reusedBlock : ∃ s, @Sound noPrediction s ∧ result? (@evict noPrediction) s = some (1, 10) ∧
    (@EvictsLatest noPrediction reusedBlock s ↔ HashCurrent s) := by
  obtain ⟨s, run, evicted, clean⟩ := reusedBlock_run
  obtain ⟨sound, latest⟩ := @run_evict noPrediction _ _ _ _ _ _ run
  exact ⟨s, sound, evicted, latest clean⟩

end Vllm.Evictor.LRUMLEvictor
