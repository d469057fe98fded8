import VllmProofs.Evictor.LruMlRrip

/-!
The RRIP victim, twice. `LRUMLEvictor` ages its blocks and looks at the index again; a shadow cache
ages its entries and scans for candidates. Both give up the block of greatest RRPV, oldest and least
among those, after ageing everything by what that RRPV is short of the greatest.
-/

namespace Vllm.Evictor
open Exec

/-- The order in which RRIP gives up blocks. -/
def rripKey {α : Type} (rrpv : ℕ) (lastAccessed : Time) (a : α) : ℤ ×ₗ Time ×ₗ α :=
  toLex (-(rrpv : ℤ), toLex (lastAccessed, a))

section

variable {α : Type} [LinearOrder α] {r r' k : ℕ} {x x' : Time} {a a' : α}

theorem rripKey_le : rripKey r x a ≤ rripKey r' x' a' ↔
    r' < r ∨ r' = r ∧ (toLex (x, a) : Time ×ₗ α) ≤ toLex (x', a') := by
  rw [rripKey, rripKey, Prod.Lex.toLex_le_toLex]
  simp only [neg_lt_neg_iff, Nat.cast_lt, neg_inj, Nat.cast_inj]
  rw [eq_comm]

theorem rripKey_shift : rripKey (r + k) x a ≤ rripKey (r' + k) x' a' ↔ rripKey r x a ≤ rripKey r' x' a' := by
  rw [rripKey_le, rripKey_le, Nat.add_lt_add_iff_right, Nat.add_right_cancel_iff]

theorem rrpv_le_of_rripKey (least : rripKey r x a ≤ rripKey r' x' a') : r' ≤ r := by
  rcases rripKey_le.mp least with before | ⟨same, -⟩
  · exact before.le
  · exact same.le

theorem eq_of_rripKey (one : rripKey r x a ≤ rripKey r' x' a') (two : rripKey r' x' a' ≤ rripKey r x a) :
    a = a' := by
  have same := le_antisymm one two
  exact congrArg (fun key : ℤ ×ₗ Time ×ₗ α => (ofLex (ofLex key).2).2) same

end

/-! ### The scan of a shadow cache -/

namespace ShadowPolicyCache

variable {c : ShadowPolicyCache} {clock : Clock} {victim : PrefixHash} {entry : ShadowEntry}

/-- The scan of the table finds the least of the entries that are old enough. -/
theorem leastBy_oldest (resident : c.table.get? victim = some entry) (old : entry.rrpv = rripMaxRrpv)
    (least : ∀ k e, c.table.get? k = some e →
      rripKey entry.rrpv entry.lastAccessed victim ≤ rripKey e.rrpv e.lastAccessed k) :
    leastBy byLastAccess (c.table.items.filter fun item => rripMaxRrpv ≤ item.2.rrpv) = some victim := by
  have member : (victim, entry) ∈ c.table.items.filter fun item => rripMaxRrpv ≤ item.2.rrpv := by
    refine List.mem_filter.mpr ⟨Dict.mem_items_iff.mpr resident, ?_⟩
    simp [old]
  cases chosen : leastBy byLastAccess (c.table.items.filter fun item => rripMaxRrpv ≤ item.2.rrpv) with
  | none =>
    rw [leastBy_eq_none.mp chosen] at member
    cases member
  | some other =>
    obtain ⟨⟨k, e⟩, argmin, rfl⟩ := Option.map_eq_some_iff.mp chosen
    obtain ⟨listed, aged⟩ := List.mem_filter.mp (List.argmin_mem argmin)
    have aged : rripMaxRrpv ≤ e.rrpv := by simpa using aged
    have minimal := List.le_of_mem_argmin member argmin
    have first := least k e (Dict.mem_items_iff.mp listed)
    have same : e.rrpv = entry.rrpv := by
      have above := rrpv_le_of_rripKey first
      omega
    rw [eq_of_rripKey first (rripKey_le.mpr (.inr ⟨same.symm, minimal⟩))]

/-- `_rrip_victim` ages every entry by what the victim's RRPV is short of the greatest. -/
theorem rripVictim_closed (clock : Clock) (rounds : ℕ) (resident : c.table.get? victim = some entry)
    (capped : entry.rrpv ≤ rripMaxRrpv) (enough : rripMaxRrpv ≤ entry.rrpv + rounds)
    (least : ∀ k e, c.table.get? k = some e →
      rripKey entry.rrpv entry.lastAccessed victim ≤ rripKey e.rrpv e.lastAccessed k) :
    ∃ table, rripVictim (rounds + 1) (c, clock) = .ok victim ({ c with table }, clock) ∧
      ∀ k, table.get? k = (c.table.get? k).map fun e =>
        { e with rrpv := e.rrpv + (rripMaxRrpv - entry.rrpv) } := by
  induction rounds generalizing c entry with
  | zero =>
    have old : entry.rrpv = rripMaxRrpv := by omega
    refine ⟨c.table, ?_, fun k => ?_⟩
    · simp only [rripVictim, get_bind, leastBy_oldest resident old least, pure_apply]
    · rw [old, Nat.sub_self]
      cases c.table.get? k <;> rfl
  | succ rounds ih =>
    by_cases old : entry.rrpv = rripMaxRrpv
    · refine ⟨c.table, ?_, fun k => ?_⟩
      · simp only [rripVictim, get_bind, leastBy_oldest resident old least, pure_apply]
      · rw [old, Nat.sub_self]
        cases c.table.get? k <;> rfl
    · -- nothing is old enough yet, and one step leaves the order as it was
      have young : ∀ k e, c.table.get? k = some e → e.rrpv < rripMaxRrpv := fun k e found => by
        have above := rrpv_le_of_rripKey (least k e found)
        omega
      have step : ∀ k e, c.table.get? k = some e → aged k e = { e with rrpv := e.rrpv + 1 } := by
        intro k e found
        have below := young k e found
        rw [aged, min_eq_right (by omega)]
      have none : leastBy byLastAccess
          (c.table.items.filter fun item => rripMaxRrpv ≤ item.2.rrpv) = none := by
        rw [leastBy_eq_none, List.filter_eq_nil_iff]
        intro item member
        have below := young item.1 item.2 (Dict.mem_items_iff.mp member)
        simpa using below
      obtain ⟨table, found, each⟩ := ih (c := { c with table := c.table.mapVal aged })
        (show Dict.get? _ victim = some { entry with rrpv := entry.rrpv + 1 } by
          rw [Dict.get?_mapVal, resident, Option.map_some, step victim entry resident])
        (by dsimp only; omega) (by dsimp only; omega) fun k e known => by
          rw [Dict.get?_mapVal] at known
          obtain ⟨before, held, rfl⟩ := Option.map_eq_some_iff.mp known
          rw [step k before held]
          exact rripKey_shift.mpr (least k before held)
      refine ⟨table, ?_, fun k => ?_⟩
      · simp only [rripVictim, get_bind, none, set_bind]
        exact found
      · rw [each k, Dict.get?_mapVal, Option.map_map]
        cases held : c.table.get? k with
        | none => rfl
        | some e =>
          rw [Option.map_some, Option.map_some, Function.comp_apply, step k e held]
          have sum : e.rrpv + 1 + (rripMaxRrpv - (entry.rrpv + 1)) = e.rrpv + (rripMaxRrpv - entry.rrpv) := by
            omega
          dsimp only
          rw [sum]

end ShadowPolicyCache

/-! ### The search of the evictor -/

namespace LRUMLEvictor

variable {s t u : LRUMLEvictor} {b : BlockId} {block : BlockMetaData}

def AllRrip (s : LRUMLEvictor) : Prop :=
  ∀ b block, s.freeTable.get? b = some block → getPolicy s.scheduler block.cacheHint = .rrip

structure Foremost (s : LRUMLEvictor) (b : BlockId) (block : BlockMetaData) : Prop where
  resident : s.freeTable.get? b = some block
  least : ∀ c other, s.freeTable.get? c = some other →
    rripKey (rrpv s b) block.lastAccessed b ≤ rripKey (rrpv s c) other.lastAccessed c

theorem exists_foremost (nonempty : s.freeTable.size ≠ 0) : ∃ b block, Foremost s b block := by
  cases least : s.freeTable.items.argmin fun item => rripKey (rrpv s item.1) item.2.lastAccessed item.1 with
  | none =>
    rw [List.argmin_eq_none] at least
    exact (nonempty (by simp [Dict.size, least])).elim
  | some item =>
    refine ⟨item.1, item.2, Dict.mem_items_iff.mp (List.argmin_mem least), fun c other found => ?_⟩
    exact List.le_of_mem_argmin (Dict.mem_items_iff.mpr found) least

theorem Graded.rripKey_le {c : BlockId} {other : BlockMetaData} (graded : Graded s) (rrip : AllRrip s)
    (resident : s.freeTable.get? b = some block) (held : s.freeTable.get? c = some other)
    (before : block.scoreKey b ≤ other.scoreKey c) :
    rripKey (rrpv s b) block.lastAccessed b ≤ rripKey (rrpv s c) other.lastAccessed c := by
  rw [BlockMetaData.scoreKey, BlockMetaData.scoreKey, Prod.Lex.toLex_le_toLex,
    graded.scored b block resident (rrip b block resident),
    graded.scored c other held (rrip c other held)] at before
  simp only [Score.number_lt, Score.number_inj, neg_lt_neg_iff, Nat.cast_lt, neg_inj, Nat.cast_inj] at before
  refine Evictor.rripKey_le.mpr (before.imp_right ?_)
  rintro ⟨same, later⟩
  exact ⟨same.symm, later⟩

variable [Numpy]

theorem age_foremost (foremost : Foremost s b block) (rrip : AllRrip s) (young : rrpv s b < rripMaxRrpv)
    (searched : Searched s u) (called : ageRripBlocks s = .ok () u) :
    (∀ c other, s.freeTable.get? c = some other → rrpv u c = rrpv s c + 1) ∧ AllRrip u ∧
      ∃ aged, Foremost u b aged ∧ aged.contentHash = block.contentHash := by
  have older : ∀ c other, s.freeTable.get? c = some other → rrpv u c = rrpv s c + 1 := by
    intro c other held
    have above := rrpv_le_of_rripKey (foremost.least c other held)
    rw [age_rrpv called held (rrip c other held), min_eq_right (by omega)]
  refine ⟨older, fun c other found => ?_, ?_⟩
  · obtain ⟨before, held, same⟩ := searched.rescored.resident found
    rw [searched.scheduler, ← (unscored_fields same).2.2]
    exact rrip c before held
  · obtain ⟨aged, found, same⟩ := searched.rescored.symm.resident foremost.resident
    refine ⟨aged, ⟨found, fun c other kept => ?_⟩, (unscored_fields same).1⟩
    obtain ⟨before, held, same'⟩ := searched.rescored.resident kept
    rw [older b block foremost.resident, older c before held, rripKey_shift, (unscored_fields same).2.1,
      ← (unscored_fields same').2.1]
    exact foremost.least c before held

omit [Numpy] in
theorem peek_foremost (inv : Inv s) (graded : Graded s) (rrip : AllRrip s) (foremost : Foremost s b block) :
    ∃ d, peekValidCandidate s = .ok (some (b, block.contentHash)) { s with sortedDict := d } ∧
      Indexed s.freeTable d := by
  have comparable : Comparable s := ⟨b, block, foremost.resident, by
    rw [graded.scored b block foremost.resident (rrip b block foremost.resident)]
    exact Score.number_ne_nan _⟩
  obtain ⟨c, other, d, held, peeked, indexed, least⟩ := peekValidCandidate_ok inv.indexed comparable
  have first := graded.rripKey_le rrip held foremost.resident (least b block foremost.resident)
  obtain rfl := eq_of_rripKey first (foremost.least c other held)
  obtain rfl := Option.some.inj (held.symm.trans foremost.resident)
  exact ⟨d, peeked, indexed⟩

theorem selectVictim_old (rounds : ℕ) (inv : Inv s) (graded : Graded s) (rrip : AllRrip s)
    (unmarked : s.toDeleteBlocks = []) (foremost : Foremost s b block) (old : ¬rrpv s b < rripMaxRrpv) :
    ∃ d, selectVictim (rounds + 1) s = .ok (b, block.contentHash) { s with sortedDict := d } := by
  obtain ⟨d, peeked, indexed⟩ := peek_foremost inv graded rrip foremost
  rw [selectVictim_peeked unmarked foremost.resident peeked, if_neg fun both => old both.2]
  exact ⟨_, bind_of_ok (removeFromSortedDict_ok (s := { s with sortedDict := d }) indexed foremost.resident)⟩

/-- Without records to take first, the search ends at the foremost block, and everything has aged by
what its RRPV was short of the greatest. -/
theorem selectVictim_rrip (rounds : ℕ) (inv : Inv s) (graded : Graded s) (rrip : AllRrip s)
    (unmarked : s.toDeleteBlocks = []) (foremost : Foremost s b block)
    (enough : rripMaxRrpv ≤ rrpv s b + rounds) :
    ∃ u, selectVictim (rounds + 1) s = .ok (b, block.contentHash) u ∧ Rescored s.freeTable u.freeTable ∧
      ∀ c other, s.freeTable.get? c = some other → rrpv u c = rrpv s c + (rripMaxRrpv - rrpv s b) := by
  induction rounds generalizing s block with
  | zero =>
    obtain ⟨d, selected⟩ := selectVictim_old 0 inv graded rrip unmarked foremost (by omega)
    refine ⟨_, selected, .refl _, fun c other _ => ?_⟩
    show rrpv s c = _
    omega
  | succ rounds ih =>
    by_cases young : rrpv s b < rripMaxRrpv
    · obtain ⟨d, peeked, indexed⟩ := peek_foremost inv graded rrip foremost
      have peekedInv : Inv { s with sortedDict := d } := ⟨indexed, inv.scorable, inv.bound⟩
      have peekedGraded : Graded { s with sortedDict := d } := ⟨graded.scored, graded.capped⟩
      rw [selectVictim_peeked unmarked foremost.resident peeked,
        if_pos ⟨rrip b block foremost.resident, young⟩]
      obtain ⟨t, ageing, searched, agedInv, records, -⟩ := ageRripBlocks_ok peekedInv
      obtain ⟨older, agedRrip, aged, agedForemost, same⟩ :=
        age_foremost (s := { s with sortedDict := d }) ⟨foremost.resident, foremost.least⟩ rrip young
          searched ageing
      have older : ∀ c other, s.freeTable.get? c = some other → rrpv t c = rrpv s c + 1 := older
      have here := older b block foremost.resident
      obtain ⟨u, selected, rescored, values⟩ := ih agedInv (age_graded peekedGraded ageing) agedRrip
        (records.trans unmarked) agedForemost (by omega)
      refine ⟨u, ?_, searched.rescored.trans rescored, fun c other held => ?_⟩
      · rw [bind_of_ok ageing, selected, same]
      · obtain ⟨kept, found, -⟩ := searched.rescored.symm.resident held
        rw [values c kept found, older c other held]
        omega
    · obtain ⟨d, selected⟩ := selectVictim_old (rounds + 1) inv graded rrip unmarked foremost young
      refine ⟨_, selected, .refl _, fun c other _ => ?_⟩
      show rrpv s c = _
      omega

/-! ### Evicting -/

structure Mirrors (hash : BlockId → PrefixHash) (s : LRUMLEvictor) (cache : ShadowPolicyCache) : Prop where
  ordered : ∀ b c, s.freeTable.contains b = true → s.freeTable.contains c = true → b < c →
    hash b < hash c
  entry : ∀ b block, s.freeTable.get? b = some block → ∃ entry, cache.table.get? (hash b) = some entry ∧
    entry.lastAccessed = block.lastAccessed ∧ entry.rrpv = rrpv s b
  onto : ∀ k entry, cache.table.get? k = some entry → ∃ b block, s.freeTable.get? b = some block ∧ hash b = k

/-- `evict` takes out the foremost block within as many rounds of ageing as its RRPV is short of the
greatest, the other blocks are older by that much, and a shadow cache with the same blocks would do
the same. -/
def EvictsForemost (s : LRUMLEvictor) : Prop := s.freeTable.size ≠ 0 → ∃ b block hash t,
  Foremost s b block ∧ evict s = .ok (b, hash) t ∧
  (∃ u, selectVictim (s.toDeleteBlocks.length + (rripMaxRrpv - rrpv s b + 1)) s = .ok (b, hash) u) ∧
  (∀ c, c ≠ b → s.freeTable.contains c = true → rrpv t c = rrpv s c + (rripMaxRrpv - rrpv s b)) ∧
  ∀ hash cache clock, Mirrors hash s cache → ∃ table,
    ShadowPolicyCache.rripVictim (rripMaxRrpv + 1) (cache, clock) =
      .ok (hash b) ({ cache with table }, clock) ∧
    ∀ c, c ≠ b → s.freeTable.contains c = true →
      (table.get? (hash c)).map ShadowEntry.rrpv = some (rrpv t c)

/-- The newest record about a resident block, if there is one, is about the only block, or about a
block of the greatest RRPV that is the oldest and the least of those. -/
def Undistracted (s : LRUMLEvictor) : Prop :=
  ∀ record block, s.toDeleteBlocks.find? (recordValid s.freeTable) = some record →
    s.freeTable.get? record.1 = some block →
    ∀ c other, s.freeTable.get? c = some other → c ≠ record.1 →
      rrpv s record.1 = rripMaxRrpv ∧
      rripKey (rrpv s record.1) block.lastAccessed record.1 ≤ rripKey (rrpv s c) other.lastAccessed c

omit [Numpy] in
theorem Mirrors.rripVictim {hash : BlockId → PrefixHash} {cache : ShadowPolicyCache} {clock : Clock}
    (mirrors : Mirrors hash s cache) (graded : Graded s) (foremost : Foremost s b block) :
    ∃ table, ShadowPolicyCache.rripVictim (rripMaxRrpv + 1) (cache, clock) =
        .ok (hash b) ({ cache with table }, clock) ∧
      ∀ c, s.freeTable.contains c = true → (table.get? (hash c)).map ShadowEntry.rrpv =
        some (rrpv s c + (rripMaxRrpv - rrpv s b)) := by
  obtain ⟨entry, resident, sameTime, sameRrpv⟩ := mirrors.entry b block foremost.resident
  have present := Dict.contains_iff.mpr ⟨block, foremost.resident⟩
  have capped := graded.capped b
  obtain ⟨table, call, each⟩ := ShadowPolicyCache.rripVictim_closed clock rripMaxRrpv
    resident (by omega) (by omega) fun k e found => by
      obtain ⟨c, other, held, rfl⟩ := mirrors.onto k e found
      obtain ⟨e', found', sameTime', sameRrpv'⟩ := mirrors.entry c other held
      obtain rfl := Option.some.inj (found.symm.trans found')
      have here := Dict.contains_iff.mpr ⟨other, held⟩
      rw [sameTime, sameRrpv, sameTime', sameRrpv']
      refine rripKey_le.mpr ((rripKey_le.mp (foremost.least c other held)).imp_right fun ⟨same, before⟩ => ⟨same, ?_⟩)
      rcases Prod.Lex.toLex_le_toLex.mp before with older | ⟨sameAge, below⟩
      · exact Prod.Lex.toLex_le_toLex.mpr (.inl older)
      · refine Prod.Lex.toLex_le_toLex.mpr (.inr ⟨sameAge, ?_⟩)
        rcases below.lt_or_eq with less | rfl
        · exact (mirrors.ordered b c present here less).le
        · exact le_rfl
  refine ⟨table, call, fun c there => ?_⟩
  obtain ⟨other, held⟩ := Dict.contains_iff.mp there
  obtain ⟨e, found, -, same⟩ := mirrors.entry c other held
  rw [each, found, sameRrpv]
  simp [same]

omit [Numpy] in
theorem sample_rrip (rrip : AllRrip s) {policy : Policy} (sampled : samplePolicy s = some policy) :
    policy = .rrip := by
  obtain ⟨block, first, same⟩ := Option.map_eq_some_iff.mp sampled
  obtain ⟨⟨b, held⟩, item, rfl⟩ := List.mem_map.mp (List.mem_of_head? first)
  rw [← same]
  exact rrip b held (Dict.mem_items_iff.mp item)

theorem evict_rrip (rrip : AllRrip s) (nonempty : s.freeTable.size ≠ 0) : evict s = (do
    let victim ← selectVictim (s.toDeleteBlocks.length + (rripMaxRrpv + 1))
    takeOut victim.1
    return victim) s := by
  obtain ⟨policy, sampled⟩ := samplePolicy_some nonempty
  refine evict_search sampled ?_
  rw [sample_rrip rrip sampled]
  decide

/-- `evict` does as RRIP asks just when no record gets in its way. -/
theorem evictsForemost_iff (inv : Inv s) (graded : Graded s) (rrip : AllRrip s) :
    EvictsForemost s ↔ Undistracted s := by
  cases newest : s.toDeleteBlocks.find? (recordValid s.freeTable) with
  | none =>
    refine iff_of_true (fun nonempty => ?_) fun record block found => by rw [newest] at found; cases found
    obtain ⟨b, block, foremost⟩ := exists_foremost nonempty
    have invalid : ∀ record ∈ s.toDeleteBlocks, recordValid s.freeTable record = false := by
      simpa using newest
    have cleared : Foremost { s with toDeleteBlocks := [] } b block := ⟨foremost.resident, foremost.least⟩
    have search (rounds : ℕ) (enough : rripMaxRrpv ≤ rrpv s b + rounds) :=
      selectVictim_rrip (s := { s with toDeleteBlocks := [] }) rounds
        ⟨inv.indexed, inv.scorable, inv.bound⟩ ⟨graded.scored, graded.capped⟩ rrip rfl cleared enough
    obtain ⟨u, selected, rescored, values⟩ := search rripMaxRrpv (by omega)
    obtain ⟨v, inTime, -⟩ := search (rripMaxRrpv - rrpv s b) (by omega)
    obtain ⟨held, found, -⟩ := rescored.symm.resident foremost.resident
    have others : ∀ c, c ≠ b → s.freeTable.contains c = true →
        rrpv (takenOut b (getPolicy u.scheduler held.cacheHint) u) c =
          rrpv s c + (rripMaxRrpv - rrpv s b) := by
      intro c different there
      obtain ⟨other, kept⟩ := Dict.contains_iff.mp there
      rw [takenOut_rrpv _ different]
      exact values c other kept
    refine ⟨b, block, block.contentHash, _, foremost, ?_, ⟨v, ?_⟩, others, fun hash cache clock mirrors => ?_⟩
    · rw [evict_rrip rrip nonempty, bind_of_ok ((selectVictim_invalid _ invalid).trans selected)]
      exact bind_of_ok (takeOut_ok found)
    · exact (selectVictim_invalid _ invalid).trans inTime
    · obtain ⟨table, call, each⟩ := mirrors.rripVictim graded foremost
      refine ⟨table, call, fun c different there => ?_⟩
      rw [each c there, others c different there]
  | some record =>
    have valid := List.find?_some newest
    rw [recordValid] at valid
    obtain ⟨block, resident⟩ : ∃ block, s.freeTable.get? record.1 = some block := by
      cases found : s.freeTable.get? record.1 with
      | none => simp [found] at valid
      | some block => exact ⟨block, rfl⟩
    obtain ⟨rest, evicted⟩ := evict_recorded (fun pdp => by cases sample_rrip rrip pdp) newest resident
    have nonempty : s.freeTable.size ≠ 0 := (Dict.size_pos_of_get? resident).ne'
    -- nothing ages
    have values : ∀ c, c ≠ record.1 → rrpv (takenOut record.1 (getPolicy s.scheduler block.cacheHint)
        { s with toDeleteBlocks := rest }) c = rrpv s c := fun c different => takenOut_rrpv _ different _
    generalize takenOut record.1 (getPolicy s.scheduler block.cacheHint)
      { s with toDeleteBlocks := rest } = t at evicted values
    constructor
    · intro evicts record' block' newest' resident' c other held different
      obtain rfl := Option.some.inj (newest.symm.trans newest')
      obtain ⟨b, first, hash, t', foremost, evicted', -, older, -⟩ := evicts nonempty
      rw [evicted] at evicted'
      cases evicted'
      obtain rfl := Option.some.inj (foremost.resident.symm.trans resident')
      have lacks := older c different (Dict.contains_iff.mpr ⟨other, held⟩)
      have capped := graded.capped record.1
      rw [values c different] at lacks
      exact ⟨by omega, foremost.least c other held⟩
    · intro undistracted _
      have others := undistracted record block newest resident
      have foremost : Foremost s record.1 block := by
        refine ⟨resident, fun c other held => ?_⟩
        by_cases same : c = record.1
        · subst same
          rw [Option.some.inj (held.symm.trans resident)]
        · exact (others c other held same).2
      have aged : ∀ c, c ≠ record.1 → s.freeTable.contains c = true →
          rrpv t c = rrpv s c + (rripMaxRrpv - rrpv s record.1) := by
        intro c different there
        obtain ⟨other, held⟩ := Dict.contains_iff.mp there
        rw [values c different, (others c other held different).1, Nat.sub_self, Nat.add_zero]
      obtain ⟨rest, selected⟩ := selectVictim_valid (rripMaxRrpv - rrpv s record.1 + 1) newest
      refine ⟨record.1, block, record.2.1, t, foremost, evicted, ⟨_, selected⟩, aged,
        fun hash cache clock mirrors => ?_⟩
      obtain ⟨table, call, each⟩ := mirrors.rripVictim graded foremost
      refine ⟨table, call, fun c different there => ?_⟩
      rw [each c there, aged c different there]

/-! ### Runs -/

/-- A call of a run without a nan. -/
def NumericCall (s : LRUMLEvictor) (c : Call) (t : LRUMLEvictor) : Prop := Returned s c t ∧ t.clock.sawNan = false

/-- After any run without a nan that leaves only RRIP blocks, `evict` and a shadow cache give up the same block
after the same ageing, just when no record of `to_delete_blocks` gets in the way. -/
theorem run_evictsForemost_iff {scheduler : EvictionPolicyScheduler} {settings : PdpSettings}
    {lastRefreshTime : Time} {clock : Clock} {history : List Call}
    (run : Run NumericCall (init scheduler settings lastRefreshTime clock) history s) (rrip : AllRrip s) :
    EvictsForemost s ↔ Undistracted s := by
  have all : Inv s ∧ Numeric s ∧ Graded s := by
    refine run.invariant (I := fun _ s => Inv s ∧ Numeric s ∧ Graded s) ⟨init_inv _ _ _ _, ?_, ?_, ?_⟩ ?_
    · intro b block found
      cases found
    · intro b block found
      cases found
    · intro b
      simp [rrpv, init, rripInsertRrpv]
    · rintro h t c u ⟨inv, numeric, graded⟩ ⟨returned, clean⟩
      exact ⟨run_inv inv numeric returned, run_noted returned (fun _ => numeric) clean, returned_graded graded returned⟩
  exact evictsForemost_iff all.1 all.2.2 rrip

abbrev followsRrip : CacheHint := { id := some 7, useRrip := some 1 }

abbrev followsModel : CacheHint := { id := some 7 }

/-- Block 1 is marked outdated under the model and then follows RRIP, at the time it was used last. -/
def markedThenRrip : List Call :=
  [.op (.add 2 20 16 2 (some followsRrip)), .op (.remove 2), .op (.update 1 1 (some followsRrip)),
    .op (.add 2 20 16 2 (some followsModel)), .op (.add 1 10 16 1 (some followsModel))]

/-- Two blocks under RRIP, the second of them used again. -/
def twoUnderRrip : List Call :=
  [.op (.update 2 3 (some followsRrip)), .op (.add 2 20 16 2 (some followsRrip)),
    .op (.add 1 10 16 1 (some followsRrip))]

omit [Numpy] in
theorem allRrip_of_items (rrip : ∀ item ∈ s.freeTable.items, getPolicy s.scheduler item.2.cacheHint = .rrip) :
    AllRrip s := fun b block found => rrip (b, block) (Dict.mem_items_iff.mpr found)

omit [Numpy] in
theorem markedThenRrip_run : ∃ s, Run (@Returned noPrediction) unscheduled markedThenRrip s ∧
    (∀ item ∈ s.freeTable.items, getPolicy s.scheduler item.2.cacheHint = .rrip) ∧
    result? (@evict noPrediction) s = some (1, 10) ∧ s.freeTable.contains 2 = true ∧
    rrpv s 1 = 0 ∧ rrpv s 2 = 2 := by
  obtain ⟨s, run, ends⟩ := Run.exists_of_execute (s := unscheduled) (h := markedThenRrip)
    (f := fun s c => next? (@Call.run noPrediction c) s)
    (P := fun s => (∀ item ∈ s.freeTable.items, getPolicy s.scheduler item.2.cacheHint = .rrip) ∧
      result? (@evict noPrediction) s = some (1, 10) ∧ s.freeTable.contains 2 = true ∧
      rrpv s 1 = 0 ∧ rrpv s 2 = 2) (by decide +kernel)
  refine ⟨s, run.mono fun t c u stepped => ?_, ends⟩
  obtain ⟨_, returned⟩ := next?_eq_some.mp stepped
  exact returned

omit [Numpy] in
/-- The record gives up block 1, although block 2 has the greater RRPV. -/
theorem markedThenRrip_first : ¬∀ (numpy : Numpy) (scheduler : EvictionPolicyScheduler)
    (settings : PdpSettings) (lastRefreshTime : Time) (clock : Clock) (history : List Call)
    (s : LRUMLEvictor),
    Run (@Returned numpy) (init scheduler settings lastRefreshTime clock) history s → AllRrip s →
    @EvictsForemost numpy s := by
  intro claim
  obtain ⟨s, run, rrip, victim, there, fresh, older⟩ := markedThenRrip_run
  obtain ⟨other, held⟩ := Dict.contains_iff.mp there
  obtain ⟨b, block, hash, t, foremost, evicted, -⟩ := claim noPrediction _ _ _ _ _ s run
    (allRrip_of_items rrip) (Dict.size_pos_of_get? held).ne'
  obtain rfl : b = 1 := congrArg Prod.fst
    (Option.some.inj ((result?_eq_some.mpr ⟨t, evicted⟩).symm.trans victim))
  have above := rrpv_le_of_rripKey (foremost.least 2 other held)
  omega

omit [Numpy] in
theorem run_evictsForemost_iff_twoUnderRrip : ∃ s,
    Run (@NumericCall noPrediction) unscheduled twoUnderRrip s ∧ @EvictsForemost noPrediction s := by
  obtain ⟨s, run, rrip, unmarked⟩ := Run.exists_of_execute (s := unscheduled) (h := twoUnderRrip)
    (f := fun s c => (next? (@Call.run noPrediction c) s).filter fun t => t.clock.sawNan = false)
    (P := fun s => (∀ item ∈ s.freeTable.items, getPolicy s.scheduler item.2.cacheHint = .rrip) ∧
      s.toDeleteBlocks = []) (by decide +kernel)
  have numeric : Run (@NumericCall noPrediction) unscheduled twoUnderRrip s := run.mono fun t c u stepped => by
    obtain ⟨next, clean⟩ := Option.filter_eq_some_iff.mp stepped
    obtain ⟨_, returned⟩ := next?_eq_some.mp next
    exact ⟨returned, of_decide_eq_true clean⟩
  refine ⟨s, numeric, (@run_evictsForemost_iff s noPrediction _ _ _ _ _ numeric
    (allRrip_of_items rrip)).mpr fun record block newest => ?_⟩
  rw [unmarked] at newest
  cases newest

end LRUMLEvictor
end Vllm.Evictor
