import VllmProofs.Data.ReuseDistance
import VllmProofs.Evictor.PdpProtection
import VllmProofs.Evictor.PdpScan

/-!
What `PDPEvictor` has counted after a run: its last-seen epochs and its histogram follow the
requests observed so far, one for each batch, and its total counts the accesses.
-/

namespace Vllm.Evictor.PDPEvictor
open Exec ReuseDistance

/-- One call of a run, however it ends. -/
def Call (s : PDPEvictor) (e : Event) (t : PDPEvictor) : Prop := e.before = s ∧ t = after e.op.call s

/-- The hashes a batch counts, each once, latest first. -/
def requested (hits : Option (List Bool)) (hashes : List PrefixHash) : List PrefixHash :=
  (observed hits hashes).reverse.dedup

def Complete (hits : Option (List Bool)) (hashes : List PrefixHash) : Prop :=
  ∀ h ∈ hashes, h ∈ observed hits hashes

instance (hits : Option (List Bool)) (hashes : List PrefixHash) : Decidable (Complete hits hashes) :=
  inferInstanceAs (Decidable (∀ h ∈ hashes, h ∈ observed hits hashes))

/-- How much a batch adds to the total: the access that finds no hit flag is counted before it
fails. -/
def counted (hits : Option (List Bool)) (hashes : List PrefixHash) : ℕ :=
  (requested hits hashes).length + if Complete hits hashes then 0 else 1

/-- The requests of a run, latest first. -/
def requests : List Event → List (List PrefixHash)
  | [] => []
  | e :: earlier =>
    match e.op with
    | .observe (h :: rest) _ hits => requested hits (h :: rest) :: requests earlier
    | _ => requests earlier

def Event.accesses (e : Event) : ℕ :=
  match e.op with
  | .observe hashes _ hits => counted hits hashes
  | _ => 0

def accesses (history : List Event) : ℕ := (history.map Event.accesses).sum

/-- The reuse distances of the requests, as they are recorded. -/
def recorded (c : PdpSettings) (requests : List (List PrefixHash)) : List ℤ :=
  (reuses requests).map fun (d : ℕ) => bucketOf c d

structure Learnt (c : PdpSettings) (requests : List (List PrefixHash)) (s : PDPEvictor) : Prop where
  settings : s.settings = c
  epoch : s.requestEpoch = requests.length
  seen : ∀ h, s.lastSeenEpoch.get? h = (lastRequest h requests).map fun (n : ℕ) => (n : ℤ)
  counts : Histogram s.reuseDistanceCounts (recorded c requests)

/-- `observe_cache_accesses` over the method that recomputes the protecting distance. -/
def observeCacheAccessesWith (recompute : Method PDPEvictor Unit) (blockHashes : List PrefixHash)
    (realHits : Option (List Bool)) : Method PDPEvictor Unit :=
  match blockHashes with
  | [] => pure ()
  | _ => do
    modify fun s => { s with requestEpoch := s.requestEpoch + 1 }
    observeEach realHits 0 [] blockHashes
    let s ← get
    if ← divides s.totalObservedAccesses s.settings.recomputeInterval then
      recompute

theorem observeCacheAccesses_eq (hashes : List PrefixHash) (hint : Option CacheHint)
    (hits : Option (List Bool)) : observeCacheAccesses hashes hint hits =
      observeCacheAccessesWith recomputeProtectingDistance hashes hits := by
  cases hashes <;> rfl

/-! ### The flags of a batch -/

section
variable {hits : Option (List Bool)} {hashes done rest : List PrefixHash} {h : PrefixHash}

/-- Is there a hit flag for the position, or no list of flags? -/
def Flagged (hits : Option (List Bool)) (index : ℕ) : Prop := ∀ flags, hits = some flags → flags ≠ [] →
  index < flags.length

theorem observed_of_flagged (flagged : Flagged hits done.length) :
    observed hits (done ++ [h]) = observed hits done ++ [h] := by
  unfold observed
  split
  · rfl
  · rfl
  · rename_i flags some'
    have long := flagged flags rfl some'
    rw [List.take_of_length_le (by simp; omega), List.take_of_length_le (by omega)]

theorem observed_of_not_flagged (short : ¬Flagged hits done.length) :
    observed hits (done ++ rest) = observed hits done := by
  unfold observed
  split
  · exact absurd (fun _ none => nomatch none) short
  · exact absurd (fun _ empty some' => absurd (Option.some.inj empty).symm some') short
  · rename_i flags some'
    have long : flags.length ≤ done.length := by
      by_contra less
      exact short fun _ same _ => by cases same; omega
    rw [List.take_append_of_le_length long]

theorem realHitAt_of_flagged {index : ℕ} (flagged : Flagged hits index) :
    ∃ hit, realHitAt hits index = pure hit := by
  match hits with
  | none => exact ⟨false, rfl⟩
  | some [] => exact ⟨false, rfl⟩
  | some (first :: others) =>
    have long := flagged _ rfl (List.cons_ne_nil _ _)
    exact ⟨(first :: others)[index], by simp only [realHitAt, List.getElem?_eq_getElem long]⟩

theorem realHitAt_of_not_flagged {index : ℕ} (short : ¬Flagged hits index) :
    realHitAt hits index = throw .indexError := by
  match hits with
  | none => exact absurd (fun _ none => nomatch none) short
  | some [] => exact absurd (fun _ empty some' => absurd (Option.some.inj empty).symm some') short
  | some (first :: others) =>
    have long : (first :: others).length ≤ index := by
      by_contra less
      exact short fun _ same _ => by cases same; omega
    simp only [realHitAt, List.getElem?_eq_none long]

theorem mem_requested : h ∈ requested hits hashes ↔ h ∈ observed hits hashes := by
  rw [requested, List.mem_dedup, List.mem_reverse]

theorem requested_nodup (hits : Option (List Bool)) (hashes : List PrefixHash) :
    (requested hits hashes).Nodup := List.nodup_dedup _

theorem requested_new (flagged : Flagged hits done.length) (new : h ∉ requested hits done) :
    requested hits (done ++ [h]) = h :: requested hits done := by
  rw [mem_requested, ← List.mem_reverse] at new
  rw [requested, observed_of_flagged flagged, List.reverse_append, List.reverse_singleton,
    List.singleton_append, List.dedup_cons_of_notMem new, requested]

theorem requested_again (known : h ∈ requested hits done) :
    requested hits (done ++ [h]) = requested hits done := by
  by_cases flagged : Flagged hits done.length
  · rw [mem_requested, ← List.mem_reverse] at known
    rw [requested, observed_of_flagged flagged, List.reverse_append, List.reverse_singleton,
      List.singleton_append, List.dedup_cons_of_mem known, requested]
  · rw [requested, observed_of_not_flagged flagged, requested]

end

/-! ### One batch -/

section
variable {c : PdpSettings} {earlier : List (List PrefixHash)} {s u : PDPEvictor} {h : PrefixHash}
  {seen : List PrefixHash}

theorem lastRequest_le {n : ℕ} {requests : List (List PrefixHash)}
    (last : lastRequest h requests = some n) : n ≤ requests.length := by
  induction requests with
  | nil => cases last
  | cons request earlier ih =>
    unfold lastRequest at last
    split at last
    · exact (Option.some.inj last).ge
    · exact (ih last).trans (Nat.le_succ _)

theorem reuses_pos {d : ℕ} {requests : List (List PrefixHash)} (member : d ∈ reuses requests) :
    1 ≤ d := by
  induction requests with
  | nil => cases member
  | cons request earlier ih =>
    rcases List.mem_append.mp member with now | before
    · obtain ⟨h, -, found⟩ := List.mem_filterMap.mp now
      obtain ⟨n, last, rfl⟩ := Option.map_eq_some_iff.mp found
      have := lastRequest_le last
      omega
    · exact ih before

theorem recordReuse_learns (learnt : Learnt c (seen :: earlier) u) (new : h ∉ seen) :
    ∃ counts, Histogram counts (recorded c ((h :: seen) :: earlier)) ∧
      recordReuse h u = .ok () { u with reuseDistanceCounts := counts } := by
  have last : lastRequest h (seen :: earlier) = lastRequest h earlier := by simp [lastRequest, new]
  have lastSeen := learnt.seen h
  rw [last] at lastSeen
  have reuse' : ReuseDistance.reuse earlier h =
      (lastRequest h earlier).map fun n => earlier.length + 1 - n := rfl
  cases found : lastRequest h earlier with
  | none =>
    rw [found] at lastSeen reuse'
    refine ⟨u.reuseDistanceCounts, ?_, ?_⟩
    · rw [recorded, reuses_cons_cons, reuse', Option.map_none, Option.toList_none, List.nil_append]
      exact learnt.counts
    · simp only [recordReuse, get_bind, lastSeen, Option.map_none]
      rfl
  | some n =>
    rw [found] at lastSeen reuse'
    have le := lastRequest_le found
    have distance : u.requestEpoch - (n : ℤ) = ((earlier.length + 1 - n : ℕ) : ℤ) := by
      rw [learnt.epoch, List.length_cons]
      omega
    refine ⟨countReuse u.reuseDistanceCounts (bucketOf c (earlier.length + 1 - n : ℕ)), ?_, ?_⟩
    · rw [recorded, reuses_cons_cons, reuse', Option.map_some, Option.toList_some, List.singleton_append,
        List.map_cons]
      exact learnt.counts.cons _
    · have bucket : bucketDistance (u.requestEpoch - (n : ℤ)) u =
          .ok (bucketOf c (earlier.length + 1 - n : ℕ)) u := by
        rw [bucketDistance, get_bind, bucketed_eq u.positive, distance, learnt.settings]
        rfl
      simp only [recordReuse, get_bind, lastSeen, Option.map_some]
      rw [bind_of_ok bucket]
      rfl

structure Kept (s t : PDPEvictor) : Prop where
  total : t.totalObservedAccesses = s.totalObservedAccesses
  distance : t.protectingDistance = s.protectingDistance

theorem protectHolder_keeps (h : PrefixHash) (reused : Bool) (s : PDPEvictor) :
    ∃ table, protectHolder h reused s = .ok () { s with freeTable := table } := by
  unfold protectHolder protectBlock
  rw [get_bind]
  cases s.contentHashToBlockId.get? h with
  | none => exact ⟨s.freeTable, rfl⟩
  | some b =>
    show ∃ table, EStateM.Result.ok () (protectedNow b reused s) = _
    unfold protectedNow
    cases s.freeTable.get? b with
    | none => exact ⟨s.freeTable, rfl⟩
    | some block => exact ⟨_, rfl⟩

theorem observeHash_learns (learnt : Learnt c (seen :: earlier) u) (new : h ∉ seen) (hit : Bool) :
    wp (observeHash h hit) (fun _ t => Learnt c ((h :: seen) :: earlier) t ∧ Kept u t)
      (fun _ _ => False) u := by
  obtain ⟨counts, histogram, record⟩ := recordReuse_learns learnt new
  unfold observeHash recordSeen
  rw [wp_bind, wp_get, wp_bind, wp_of_ok record, wp_bind, wp_modify]
  obtain ⟨table, protect⟩ := protectHolder_keeps h (hit || (u.lastSeenEpoch.get? h).isSome)
    { u with reuseDistanceCounts := counts, lastSeenEpoch := u.lastSeenEpoch.insert h u.requestEpoch }
  rw [wp_of_ok protect]
  refine ⟨⟨learnt.settings, learnt.epoch, fun k => ?_, histogram⟩, rfl, rfl⟩
  show (u.lastSeenEpoch.insert h u.requestEpoch).get? k = _
  rw [Dict.get?_insert]
  by_cases same : k = h
  · subst same
    simp [lastRequest, learnt.epoch]
  · rw [if_neg same, learnt.seen k, lastRequest_cons_cons h same]

/-- A batch learns its request; it stops with an error where it runs out of flags. -/
theorem observeEach_learns {hits : Option (List Bool)} {done : List PrefixHash} {pd : ℤ}
    (rest : List PrefixHash) (total : ℤ) (learnt : Learnt c (requested hits done :: earlier) u) (reached : ∀ h ∈ done, h ∈ observed hits done)
    (sum : u.totalObservedAccesses = total + (requested hits done).length)
    (distance : u.protectingDistance = pd) :
    wp (observeEach hits done.length (requested hits done) rest)
      (fun _ t => Complete hits (done ++ rest) ∧ Learnt c (requested hits (done ++ rest) :: earlier) t ∧
        t.totalObservedAccesses = total + counted hits (done ++ rest) ∧ t.protectingDistance = pd)
      (fun e t => e = .indexError ∧ ¬Complete hits (done ++ rest) ∧
        Learnt c (requested hits (done ++ rest) :: earlier) t ∧
        t.totalObservedAccesses = total + counted hits (done ++ rest) ∧ t.protectingDistance = pd) u := by
  induction rest generalizing done u with
  | nil =>
    have complete : Complete hits done := reached
    rw [List.append_nil, counted, if_pos complete]
    exact ⟨complete, learnt, sum, distance⟩
  | cons h rest ih =>
    have shift : done ++ h :: rest = (done ++ [h]) ++ rest := by simp
    have length : (done ++ [h]).length = done.length + 1 := by simp
    unfold observeEach
    by_cases known : h ∈ requested hits done
    · rw [if_pos known, shift, ← requested_again known, ← length]
      refine ih ?_ ?_ ?_ distance
      · rwa [requested_again known]
      · intro k member
        rw [← mem_requested, requested_again known, mem_requested]
        rcases List.mem_append.mp member with old | now
        · exact reached k old
        · rw [List.mem_singleton.mp now, ← mem_requested]
          exact known
      · rwa [requested_again known]
    · rw [if_neg known, wp_bind, wp_modify, wp_bind]
      by_cases flagged : Flagged hits done.length
      · obtain ⟨hit, flag⟩ := realHitAt_of_flagged flagged
        rw [flag, wp_pure, wp_bind]
        have counting : Learnt c (requested hits done :: earlier)
            { u with totalObservedAccesses := u.totalObservedAccesses + 1 } :=
          ⟨learnt.settings, learnt.epoch, learnt.seen, learnt.counts⟩
        refine (observeHash_learns counting known hit).mono ?_ fun _ _ impossible => impossible.elim
        rintro _ t ⟨now, kept⟩
        rw [shift, ← requested_new flagged known, ← length]
        refine ih ?_ ?_ ?_ (kept.distance.trans distance)
        · rwa [requested_new flagged known]
        · intro k member
          rw [observed_of_flagged flagged]
          rcases List.mem_append.mp member with old | new
          · exact List.mem_append_left _ (reached k old)
          · exact List.mem_append_right _ new
        · rw [kept.total, requested_new flagged known, List.length_cons]
          push_cast
          omega
      · -- no flag is left: the access is counted and nothing else
        have stuck : ¬Complete hits (done ++ h :: rest) := by
          intro complete
          have member := complete h (by simp)
          rw [observed_of_not_flagged flagged, ← mem_requested] at member
          exact known member
        have same : requested hits (done ++ h :: rest) = requested hits done := by
          rw [requested, observed_of_not_flagged flagged, requested]
        rw [realHitAt_of_not_flagged flagged, wp_throw, counted, if_neg stuck, same]
        refine ⟨rfl, stuck, ⟨learnt.settings, learnt.epoch, learnt.seen, learnt.counts⟩, ?_, distance⟩
        show u.totalObservedAccesses + 1 = _
        push_cast
        omega

/-- A batch that is not empty learns one request. It recomputes at its end, if the total is then
a multiple of the interval. -/
theorem batch_learns {hashes : List PrefixHash} (hits : Option (List Bool))
    (learnt : Learnt c earlier s) (some' : hashes ≠ []) :
    ∃ u, Learnt c (requested hits hashes :: earlier) u ∧
      u.totalObservedAccesses = s.totalObservedAccesses + counted hits hashes ∧
      u.protectingDistance = s.protectingDistance ∧
      ((Complete hits hashes ∧ ∀ recompute, observeCacheAccessesWith recompute hashes hits s =
          if u.totalObservedAccesses % c.recomputeInterval = 0 then recompute u else .ok () u) ∨
        (¬Complete hits hashes ∧ ∀ recompute, observeCacheAccessesWith recompute hashes hits s =
          .error .indexError u)) := by
  have none : requested hits [] = [] := by
    unfold requested observed
    split <;> simp
  have start : Learnt c (requested hits [] :: earlier) { s with requestEpoch := s.requestEpoch + 1 } := by
    rw [none]
    refine ⟨learnt.settings, ?_, fun h => ?_, learnt.counts⟩
    · show s.requestEpoch + 1 = _
      rw [learnt.epoch, List.length_cons, Nat.cast_succ]
    · rw [learnt.seen h]
      simp [lastRequest]
  have loop := observeEach_learns hashes s.totalObservedAccesses start
    (fun _ member => absurd member List.not_mem_nil) (by simp [none]) rfl
  rw [List.nil_append, none, List.length_nil] at loop
  have unfolded : ∀ recompute, observeCacheAccessesWith recompute hashes hits s =
      (observeEach hits 0 [] hashes >>= fun _ => do
        let u ← get
        if ← divides u.totalObservedAccesses u.settings.recomputeInterval then recompute)
        { s with requestEpoch := s.requestEpoch + 1 } := by
    intro recompute
    cases hashes with
    | nil => exact absurd rfl some'
    | cons h rest => rfl
  cases call : observeEach hits 0 [] hashes { s with requestEpoch := s.requestEpoch + 1 } with
  | ok a u =>
    obtain ⟨complete, now, total, distance⟩ := loop.ok call
    refine ⟨u, now, total, distance, Or.inl ⟨complete, fun recompute => ?_⟩⟩
    rw [unfolded, bind_of_ok call, get_bind, divides_positive _ u.positive.2.1, now.settings, pure_bind]
    by_cases due : u.totalObservedAccesses % c.recomputeInterval = 0
    · simp [due]
    · simp [due]
  | error e u =>
    obtain ⟨rfl, stuck, now, total, distance⟩ := loop.error call
    exact ⟨u, now, total, distance, Or.inr ⟨stuck, fun recompute => by rw [unfolded, bind_of_error call]⟩⟩

theorem recompute_eq (s : PDPEvictor) : ∃ distance,
    recomputeProtectingDistance s = .ok () { s with protectingDistance := distance } := by
  obtain ⟨best, computed⟩ := bestProtectingDistance_positive s.positive s.reuseDistanceCounts
    s.totalObservedAccesses s.protectingDistance
  refine ⟨best, ?_⟩
  rw [recomputeProtectingDistance, get_bind, computed]
  rfl

/-- Whether or not a batch recomputes, only the protecting distance depends on it. -/
theorem observe_after {hashes : List PrefixHash} (hint : Option CacheHint) (hits : Option (List Bool))
    (learnt : Learnt c earlier s) (some' : hashes ≠ []) :
    ∃ t, after (observeCacheAccesses hashes hint hits) s = t ∧
      Learnt c (requested hits hashes :: earlier) t ∧
      t.totalObservedAccesses = s.totalObservedAccesses + counted hits hashes := by
  obtain ⟨u, now, sum, -, outcome⟩ := batch_learns hits learnt some'
  have result : ∃ distance, after (observeCacheAccesses hashes hint hits) s =
      { u with protectingDistance := distance } := by
    rw [observeCacheAccesses_eq]
    rcases outcome with ⟨-, ends⟩ | ⟨-, ends⟩
    · by_cases due : u.totalObservedAccesses % c.recomputeInterval = 0
      · obtain ⟨distance, call⟩ := recompute_eq u
        exact ⟨distance, after_ok ((ends _).trans (by rw [if_pos due, call]))⟩
      · exact ⟨u.protectingDistance, after_ok ((ends _).trans (if_neg due))⟩
    · exact ⟨u.protectingDistance, after_error (ends _)⟩
  obtain ⟨distance, result⟩ := result
  exact ⟨_, result, ⟨now.settings, now.epoch, now.seen, now.counts⟩, sum⟩

theorem counted_nil (hits : Option (List Bool)) : counted hits [] = 0 := by
  have complete : Complete hits [] := fun _ member => nomatch member
  rw [counted, if_pos complete, requested]
  unfold observed
  split <;> simp

theorem after_table {op : Op} (other : ∀ h rest hint hits, op ≠ .observe (h :: rest) hint hits)
    (s : PDPEvictor) : ∃ table mapping,
      after op.call s = { s with freeTable := table, contentHashToBlockId := mapping } := by
  cases op with
  | observe hashes hint hits =>
    cases hashes with
    | nil => exact ⟨s.freeTable, s.contentHashToBlockId, rfl⟩
    | cons h rest => exact absurd rfl (other h rest hint hits)
  | add b h n time hint =>
    obtain ⟨record, -, -, -, call⟩ := add_eq s b h n time hint
    exact ⟨_, _, after_ok call⟩
  | update b time hint =>
    cases held : s.freeTable.get? b with
    | none => exact ⟨s.freeTable, s.contentHashToBlockId, by simp [Op.call, PDPEvictor.update, held, after]⟩
    | some block => exact ⟨_, s.contentHashToBlockId, after_ok (update_present time hint held)⟩
  | remove b =>
    cases held : s.freeTable.get? b with
    | none => exact ⟨s.freeTable, s.contentHashToBlockId, by simp [Op.call, PDPEvictor.remove, held, after]⟩
    | some block =>
      refine ⟨s.freeTable.erase b, forget s.contentHashToBlockId block.contentHash b, ?_⟩
      simp [Op.call, PDPEvictor.remove, held, after, forgetHashMapping]
  | evict =>
    by_cases empty : s.freeTable.size = 0
    · exact ⟨s.freeTable, s.contentHashToBlockId,
        after_error (bind_of_error (PdpSimulation.pdpEvict_empty empty))⟩
    · obtain ⟨b, record, -, call⟩ := PdpSimulation.pdpEvict_least empty
      exact ⟨_, _, after_ok (bind_of_ok call)⟩

theorem requests_other {op : Op} (other : ∀ h rest hint hits, op ≠ .observe (h :: rest) hint hits)
    (history : List Event) : requests (⟨s, op⟩ :: history) = requests history ∧
      accesses (⟨s, op⟩ :: history) = accesses history := by
  cases op with
  | observe hashes hint hits =>
    cases hashes with
    | nil => exact ⟨rfl, by simp [accesses, Event.accesses, counted_nil]⟩
    | cons h rest => exact absurd rfl (other h rest hint hits)
  | add b h n time hint => exact ⟨rfl, by simp [accesses, Event.accesses]⟩
  | update b time hint => exact ⟨rfl, by simp [accesses, Event.accesses]⟩
  | remove b => exact ⟨rfl, by simp [accesses, Event.accesses]⟩
  | evict => exact ⟨rfl, by simp [accesses, Event.accesses]⟩

theorem run_learnt {config : PdpSettings} {history : List Event}
    (run : Run Call (PDPEvictor.init config) history s) :
    Learnt config.clamp (requests history) s ∧ s.totalObservedAccesses = accesses history := by
  refine run.invariant (I := fun history s => Learnt config.clamp (requests history) s ∧
    s.totalObservedAccesses = accesses history) ⟨⟨rfl, rfl, fun h => rfl, Histogram.empty⟩, rfl⟩ ?_
  rintro history s ⟨before, op⟩ t ⟨learnt, total⟩ ⟨rfl, rfl⟩
  by_cases observation : ∃ h rest hint hits, op = .observe (h :: rest) hint hits
  · obtain ⟨h, rest, hint, hits, rfl⟩ := observation
    obtain ⟨t, result, now, sum⟩ := observe_after hint hits learnt (List.cons_ne_nil h rest)
    have here : after (Op.observe (h :: rest) hint hits).call before = t := result
    rw [here]
    refine ⟨now, ?_⟩
    rw [sum, total, accesses, accesses, List.map_cons, List.sum_cons]
    push_cast
    exact add_comm _ _
  · have other : ∀ h rest hint hits, op ≠ .observe (h :: rest) hint hits :=
      fun h rest hint hits same => observation ⟨h, rest, hint, hits, same⟩
    obtain ⟨sameRequests, sameAccesses⟩ := requests_other (s := before) other history
    obtain ⟨table, mapping, result⟩ := after_table other before
    rw [sameRequests, sameAccesses, result]
    exact ⟨⟨learnt.settings, learnt.epoch, learnt.seen, learnt.counts⟩, total⟩

end
end Vllm.Evictor.PDPEvictor
