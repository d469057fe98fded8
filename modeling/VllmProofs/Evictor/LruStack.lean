import VllmProofs.Data.Recency
import VllmProofs.Evictor.ShadowAccess

/-!
The LRU shadow cache is a stack: its table is the front of the hashes ordered by their last use,
cut off at the capacity. What a small cache holds a larger one holds too, so it hits no less.
-/

namespace Vllm.Evictor.ShadowPolicyCache
open Exec

/-- A call of `access`. -/
structure Access where
  contentHash : PrefixHash
  now : Time
  cacheHint : Option CacheHint := none

def replay [Numpy] (accesses : List Access) : Method (Timed ShadowPolicyCache) Unit :=
  accesses.forM fun a => access a.contentHash a.now a.cacheHint

/-- The hashes `accesses` leave among the `capacity` most recently used. -/
def retained (capacity : ℕ) (accesses : List Access) : List PrefixHash :=
  mostRecent capacity (accesses.map Access.contentHash)

/-- Each access with whether its hash was among the most recently used when it came. -/
def reported (capacity : ℕ) (accesses : List Access) : List (Time × ℕ) :=
  accesses.mapIdx fun i a =>
    (a.now, (decide (a.contentHash ∈ retained capacity (accesses.take i))).toNat)

/-- The hits among the recorded events; the numerator of `hit_rate`. -/
def hitCount (events : List (Time × ℕ)) : ℕ := (events.map Prod.snd).sum

variable {capacity : ℕ}

theorem retained_concat (positive : 1 ≤ capacity) (done : List Access) (a : Access) :
    retained capacity (done ++ [a]) =
      (a.contentHash :: (retained capacity done).erase a.contentHash).take capacity := by
  unfold retained
  rw [List.map_append, List.map_singleton]
  exact mostRecent_concat positive _ _

theorem reported_concat (capacity : ℕ) (done : List Access) (a : Access) :
    reported capacity (done ++ [a]) = reported capacity done ++
      [(a.now, (decide (a.contentHash ∈ retained capacity done)).toNat)] := by
  unfold reported
  rw [List.mapIdx_concat, List.take_left']
  · congr 1
    apply List.ext_getElem?
    intro i
    rw [List.getElem?_mapIdx, List.getElem?_mapIdx]
    cases found : done[i]? with
    | none => rfl
    | some b =>
      have inside : i < done.length := (List.getElem?_eq_some_iff.mp found).1
      rw [Option.map_some, Option.map_some, List.take_append_of_le_length (le_of_lt inside)]
  · rfl

/-! ### The table -/

structure Stacked (table : Dict PrefixHash ShadowEntry) (recent : List PrefixHash) : Prop where
  nodup : recent.Nodup
  resident : ∀ k, table.contains k = true ↔ k ∈ recent
  older : recent.Pairwise fun k j => ∀ e f, table.get? k = some e → table.get? j = some f →
    f.lastAccessed < e.lastAccessed

variable {rest : List PrefixHash} {last : PrefixHash}

namespace Stacked

variable {table : Dict PrefixHash ShadowEntry} {recent : List PrefixHash}

theorem size (stacked : Stacked table recent) : table.size = recent.length := by
  have same : table.keys.Perm recent := by
    refine (List.perm_ext_iff_of_nodup table.nodup stacked.nodup).mpr fun k => ?_
    refine Iff.trans ?_ (stacked.resident k)
    exact Dict.mem_keys_iff.trans Dict.contains_iff.symm
  rw [← same.length_eq]
  exact (List.length_map _).symm

variable {k : PrefixHash}

theorem found (stacked : Stacked table recent) (member : k ∈ recent) :
    ∃ entry, table.get? k = some entry :=
  Dict.contains_iff.mp ((stacked.resident k).mpr member)

theorem absent (stacked : Stacked table recent) (missing : table.get? k = none) : k ∉ recent := by
  intro member
  obtain ⟨entry, known⟩ := stacked.found member
  rw [missing] at known
  cases known

/-- The least recently used hash has the least `last_accessed`. -/
theorem leastBy_last
    (stacked : Stacked table (rest ++ [last])) : leastBy byLastAccess table.items = some last := by
  obtain ⟨oldest, atLast⟩ := stacked.found (List.mem_append_right _ List.mem_cons_self)
  cases least : leastBy byLastAccess table.items with
  | none =>
    have member := Dict.mem_items_iff.mpr atLast
    rw [leastBy_eq_none.mp least] at member
    cases member
  | some victim =>
    obtain ⟨⟨contentHash, entry⟩, argmin, rfl⟩ := Option.map_eq_some_iff.mp least
    have known := Dict.mem_items_iff.mp (List.argmin_mem argmin)
    rcases List.mem_append.mp ((stacked.resident _).mp (Dict.contains_iff.mpr ⟨entry, known⟩)) with
      earlier | same
    · have later := (List.pairwise_append.mp stacked.older).2.2 contentHash earlier last
        List.mem_cons_self entry oldest known atLast
      have minimal := List.le_of_mem_argmin (Dict.mem_items_iff.mpr atLast) argmin
      rcases Prod.Lex.toLex_le_toLex.mp minimal with before | ⟨same, -⟩
      · exact absurd later (not_lt_of_gt before)
      · exact absurd later (not_lt_of_ge same.le)
    · rw [List.mem_singleton.mp same]

theorem erase_last
    (stacked : Stacked table (rest ++ [last])) : Stacked (table.erase last) rest := by
  obtain ⟨distinct, -, disjoint⟩ := List.nodup_append.mp stacked.nodup
  have apart : last ∉ rest := fun member => disjoint last member last List.mem_cons_self rfl
  have elsewhere {k : PrefixHash} (member : k ∈ rest) : (table.erase last).get? k = table.get? k :=
    Dict.get?_erase_ne fun same => apart (same ▸ member)
  refine ⟨distinct, fun k => ?_, ?_⟩
  · have before := stacked.resident k
    rw [List.mem_append, List.mem_singleton] at before
    by_cases same : k = last
    · subst same
      simp [Dict.contains, apart]
    · rw [Dict.contains, Dict.get?_erase_ne same, ← Dict.contains]
      simpa [same] using before
  · refine (List.pairwise_append.mp stacked.older).1.imp_of_mem ?_
    intro k j member member' later e f atK atJ
    exact later e f (by rwa [elsewhere member] at atK) (by rwa [elsewhere member'] at atJ)

theorem insert {entry : ShadowEntry} (stacked : Stacked table recent)
    (latest : ∀ j e, table.get? j = some e → e.lastAccessed < entry.lastAccessed) :
    Stacked (table.insert k entry) (k :: recent.erase k) := by
  have apart : k ∉ recent.erase k := stacked.nodup.not_mem_erase
  have elsewhere {j : PrefixHash} (member : j ∈ recent.erase k) :
      (table.insert k entry).get? j = table.get? j :=
    Dict.get?_insert_ne fun same => apart (same ▸ member)
  refine ⟨List.nodup_cons.mpr ⟨apart, stacked.nodup.erase k⟩, fun j => ?_, ?_⟩
  · by_cases same : j = k
    · subst same
      simp [Dict.contains]
    · have before := stacked.resident j
      rw [Dict.contains, Dict.get?_insert_ne same, ← Dict.contains, List.mem_cons,
        stacked.nodup.mem_erase_iff]
      simpa [same] using before
  · refine List.pairwise_cons.mpr ⟨fun j member e f atK atJ => ?_, ?_⟩
    · rw [Dict.get?_insert_self] at atK
      rw [elsewhere member] at atJ
      cases atK
      exact latest j f atJ
    · refine (stacked.older.sublist List.erase_sublist).imp_of_mem ?_
      intro i j member member' later e f atI atJ
      exact later e f (by rwa [elsewhere member] at atI) (by rwa [elsewhere member'] at atJ)

end Stacked

/-! ### One access -/

section

variable [Numpy] {c : ShadowPolicyCache} {clock : Clock} {recent : List PrefixHash}

/-- `_evict` gives up the least recently used hash. -/
theorem evict_lru (lru : c.policy = .lru) (stacked : Stacked c.table (rest ++ [last])) :
    evict (c, clock) = .ok ⟨⟩ ({ c with table := c.table.erase last }, clock) := by
  have size := stacked.size
  rw [List.length_append, List.length_singleton] at size
  have nonempty : c.table.size ≠ 0 := by omega
  have victim : selectVictim (c, clock) = .ok (some last) (c, clock) := by
    simp [selectVictim, lru, stacked.leastBy_last]
  simp [evict, nonempty, bind_of_ok victim]

/-- The loop of `access` leaves the `limit` most recently used hashes. -/
theorem evictDownTo_lru (clock : Clock) (limit rounds : ℕ) (lru : c.policy = .lru) (stacked : Stacked c.table recent)
    (enough : recent.length ≤ limit + rounds) :
    ∃ table, evictDownTo limit rounds (c, clock) = .ok ⟨⟩ ({ c with table }, clock) ∧
      Stacked table (recent.take limit) ∧
      ∀ k entry, table.get? k = some entry → c.table.get? k = some entry := by
  induction rounds generalizing c recent with
  | zero =>
    have size := stacked.size
    have fits : ¬(limit : ℤ) < c.table.size := by omega
    refine ⟨c.table, ?_, ?_, fun _ _ same => same⟩
    · simp only [evictDownTo, get_bind, if_neg fits, pure_apply]
    · rw [List.take_of_length_le (by omega)]
      exact stacked
  | succ rounds ih =>
    have size := stacked.size
    by_cases excess : (limit : ℤ) < c.table.size
    · rcases List.eq_nil_or_concat recent with rfl | ⟨rest, last, rfl⟩
      · rw [List.length_nil] at size
        omega
      · rw [List.concat_eq_append] at stacked size enough ⊢
        rw [List.length_append, List.length_singleton] at size enough
        obtain ⟨table, rounds, taken, kept⟩ :=
          ih (c := { c with table := c.table.erase last }) lru stacked.erase_last (by omega)
        refine ⟨table, ?_, ?_, fun k entry found => ?_⟩
        · simp only [evictDownTo, get_bind, if_pos excess]
          rw [bind_of_ok (evict_lru lru stacked)]
          exact rounds
        · rw [List.take_append_of_le_length (by omega)]
          exact taken
        · have before := kept k entry found
          rw [Dict.get?_erase] at before
          split at before
          · cases before
          · exact before
    · refine ⟨c.table, ?_, ?_, fun _ _ same => same⟩
      · simp only [evictDownTo, get_bind, if_neg excess, pure_apply]
      · rw [List.take_of_length_le (by omega)]
        exact stacked

theorem newEntry_lastAccessed (s : ShadowPolicyCache) (now : Time) (cacheHint : Option CacheHint) :
    (newEntry s now cacheHint).lastAccessed = now := by
  unfold newEntry
  split <;> rfl

theorem newEntry_lru {s : ShadowPolicyCache} {now : Time} {cacheHint : Option CacheHint}
    (lru : s.policy = .lru) :
    newEntry s now cacheHint = { firstAccessed := now, lastAccessed := now, cacheHint } := by
  simp [newEntry, lru]

theorem touched_lastAccessed (s : ShadowPolicyCache) (entry : ShadowEntry) (now : Time)
    (cacheHint : Option CacheHint) : (touched s entry now cacheHint).lastAccessed = now := by
  unfold touched
  split <;> rfl

/-- An access reports whether its hash is in the table, and moves it to the front. -/
theorem access_lru (clock : Clock) {a : Access} (positive : 1 ≤ capacity) (lru : c.policy = .lru)
    (sized : c.capacity = capacity) (fits : recent.length ≤ capacity)
    (stacked : Stacked c.table recent)
    (before : ∀ k entry, c.table.get? k = some entry → entry.lastAccessed < a.now) :
    ∃ table, access a.contentHash a.now a.cacheHint (c, clock) = .ok ⟨⟩ ({ c with
        table
        events := c.events ++ [(a.now, (decide (a.contentHash ∈ recent)).toNat)] }, clock) ∧
      Stacked table ((a.contentHash :: recent.erase a.contentHash).take capacity) ∧
      ∀ k entry, table.get? k = some entry → entry.lastAccessed ≤ a.now := by
  obtain ⟨contentHash, now, cacheHint⟩ := a
  dsimp only at before ⊢
  have reports : c.table.contains contentHash = decide (contentHash ∈ recent) :=
    Bool.eq_iff_iff.mpr (by simpa using stacked.resident contentHash)
  have latest {table : Dict PrefixHash ShadowEntry} {entry : ShadowEntry}
      (at_now : entry.lastAccessed = now)
      (kept : ∀ k e, table.get? k = some e → c.table.get? k = some e) (k : PrefixHash)
      (e : ShadowEntry) (known : (table.insert contentHash entry).get? k = some e) :
      e.lastAccessed ≤ now := by
    rw [Dict.get?_insert] at known
    split at known
    · cases known
      exact at_now.le
    · exact (before k e (kept k e known)).le
  cases found : c.table.get? contentHash with
  | some entry =>
    have member : contentHash ∈ recent :=
      (stacked.resident _).mp (Dict.contains_iff.mpr ⟨entry, found⟩)
    have length := List.length_erase_add_one member
    have moved : Stacked (c.table.insert contentHash (touched c entry now cacheHint))
        (contentHash :: recent.erase contentHash) :=
      stacked.insert (by rw [touched_lastAccessed]; exact before)
    refine ⟨c.table.insert contentHash (touched c entry now cacheHint), ?_, ?_,
      latest (touched_lastAccessed _ _ _ _) fun _ _ same => same⟩
    · simp [access, observeIfPdp, lru, found, reports, touched]
    · rw [List.take_of_length_le (by rw [List.length_cons]; omega)]
      exact moved
  | none =>
    obtain ⟨capacity, rfl⟩ := Nat.exists_eq_add_of_le' positive
    have absent := stacked.absent found
    have size := stacked.size
    obtain ⟨table, rounds, taken, kept⟩ := evictDownTo_lru clock capacity c.table.size (c := { c with
        events := c.events ++ [(now, (decide (contentHash ∈ recent)).toNat)] })
      lru stacked (by omega)
    have fewer : contentHash ∉ recent.take capacity := fun member => absent (List.mem_of_mem_take member)
    refine ⟨table.insert contentHash (newEntry c now cacheHint), ?_, ?_,
      latest (newEntry_lastAccessed _ _ _) kept⟩
    · have opened : ¬c.capacity ≤ 0 := by omega
      have cut : c.capacity - 1 = (capacity : ℤ) := by omega
      have unwatched : observeIfPdp contentHash ({ c with
          events := c.events ++ [(now, (decide (contentHash ∈ recent)).toNat)] }, clock) =
          .ok ⟨⟩ ({ c with
            events := c.events ++ [(now, (decide (contentHash ∈ recent)).toNat)] }, clock) := by
        simp [observeIfPdp, lru]
      simp only [access, get_bind, set_bind, reports, bind_of_ok unwatched, found, if_neg opened, cut,
        bind_of_ok rounds, modify_apply]
      rw [newEntry_lru (by exact lru), newEntry_lru lru]
    · have moved : Stacked (table.insert contentHash (newEntry c now cacheHint))
          (contentHash :: (recent.take capacity).erase contentHash) :=
        taken.insert (by rw [newEntry_lastAccessed]; exact fun k e known => before k e (kept k e known))
      rw [List.erase_of_not_mem fewer] at moved
      rw [List.erase_of_not_mem absent, List.take_succ_cons]
      exact moved

/-! ### Every run -/

structure Replayed (capacity : ℕ) (done : List Access) (c : ShadowPolicyCache) : Prop where
  policy : c.policy = .lru
  sized : c.capacity = capacity
  events : c.events = reported capacity done
  stacked : Stacked c.table (retained capacity done)
  seen : ∀ k entry, c.table.get? k = some entry → ∃ a ∈ done, entry.lastAccessed ≤ a.now

theorem replay_wp {settings : PdpSettings} {accesses : List Access}
    (positive : 1 ≤ capacity) (increasing : accesses.Pairwise fun a b => a.now < b.now) :
    wp (replay accesses) (fun _ t => Replayed capacity accesses t.1) (fun _ _ => False)
      (init .lru capacity settings, clock) := by
  refine wp_forM (I := fun done (t : Timed ShadowPolicyCache) => Replayed capacity done t.1) ?_ ?_
  · refine ⟨rfl, rfl, rfl, ⟨nodup_mostRecent _ _, fun k => ?_, ?_⟩, fun k entry found => ?_⟩
    · simp [init, retained, mostRecent_nil, Dict.contains]
    · rw [retained, List.map_nil, mostRecent_nil]
      exact .nil
    · cases found
  · rintro done a rest ⟨c, clock⟩ split before
    obtain ⟨policy, sized, events, stacked, seen⟩ := before
    rw [split, List.pairwise_append] at increasing
    have fits : (retained capacity done).length ≤ capacity := List.length_take_le _ _
    obtain ⟨table, call, moved, latest⟩ := access_lru clock positive policy sized fits
      stacked fun k entry found => by
        obtain ⟨b, member, before⟩ := seen k entry found
        exact before.trans_lt (increasing.2.2 b member a List.mem_cons_self)
    rw [wp_of_ok call]
    refine ⟨policy, sized, ?_, ?_, fun k entry found => ⟨a, List.mem_append_right _ List.mem_cons_self,
      latest k entry found⟩⟩
    · rw [reported_concat, ← events]
    · rw [retained_concat positive]
      exact moved

omit [Numpy] in
theorem hitCount_mono {small large : ℕ} (more : small ≤ large) (accesses : List Access) :
    hitCount (reported small accesses) ≤ hitCount (reported large accesses) := by
  induction accesses using List.reverseRecOn with
  | nil => exact le_rfl
  | append_singleton done a ih =>
    have inclusion : a.contentHash ∈ retained small done → a.contentHash ∈ retained large done :=
      fun member => mostRecent_subset more _ member
    have hit : (decide (a.contentHash ∈ retained small done)).toNat ≤
        (decide (a.contentHash ∈ retained large done)).toNat :=
      Bool.toNat_le_toNat (by simpa [Bool.le_iff_imp] using inclusion)
    have total (capacity : ℕ) : hitCount (reported capacity (done ++ [a])) =
        hitCount (reported capacity done) + (decide (a.contentHash ∈ retained capacity done)).toNat := by
      rw [reported_concat, hitCount, List.map_append, List.sum_append]
      rfl
    rw [total, total]
    exact Nat.add_le_add ih hit

/-- A cache that holds more hits no less. -/
theorem replay_lru (settings : PdpSettings) (clock : Clock) {accesses : List Access}
    (increasing : accesses.Pairwise fun a b => a.now < b.now) :
    (∀ capacity : ℕ, 1 ≤ capacity → ∃ t,
      replay accesses (init .lru capacity settings, clock) = .ok ⟨⟩ t ∧
      t.1.events = reported capacity accesses ∧
      ∀ k, t.1.table.contains k = true ↔ k ∈ retained capacity accesses) ∧
    ∀ (small large : ℕ) s t, 1 ≤ small → small ≤ large →
      replay accesses (init .lru small settings, clock) = .ok ⟨⟩ s →
      replay accesses (init .lru large settings, clock) = .ok ⟨⟩ t →
      hitCount s.1.events ≤ hitCount t.1.events := by
  refine ⟨fun capacity positive => ?_, fun small large s t positive more atSmall atLarge => ?_⟩
  · obtain ⟨_, t, call, replayed⟩ := (replay_wp positive increasing).returns
    exact ⟨t, call, replayed.events, replayed.stacked.resident⟩
  · rw [((replay_wp positive increasing).ok atSmall).events,
      ((replay_wp (positive.trans more) increasing).ok atLarge).events]
    exact hitCount_mono more accesses

end

theorem replay_lru_twoOfThree : let _ : Numpy := ⟨fun _ => 1⟩
    let accesses : List Access := [⟨1, 1, none⟩, ⟨2, 2, none⟩, ⟨1, 3, none⟩, ⟨3, 4, none⟩, ⟨2, 5, none⟩]
    ∃ s t, replay accesses (init .lru 2 {}, { readings := 0 }) = .ok ⟨⟩ s ∧
      replay accesses (init .lru 3 {}, { readings := 0 }) = .ok ⟨⟩ t ∧
      (∀ k, s.1.table.contains k = true ↔ k = 2 ∨ k = 3) ∧
      hitCount s.1.events = 1 ∧ hitCount t.1.events = 2 := by
  intro _ accesses
  have increasing : accesses.Pairwise fun a b => a.now < b.now := by
    simp [accesses]
    norm_num
  obtain ⟨s, small, events, table⟩ := (replay_lru {} { readings := 0 } increasing).1 2 (by decide)
  obtain ⟨t, large, events', -⟩ := (replay_lru {} { readings := 0 } increasing).1 3 (by decide)
  refine ⟨s, t, small, large, fun k => ?_, ?_, ?_⟩
  · rw [table k, show retained 2 accesses = [2, 3] by decide]
    simp
  · rw [events]
    decide
  · rw [events']
    decide

end Vllm.Evictor.ShadowPolicyCache
