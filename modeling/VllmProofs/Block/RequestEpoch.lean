import VllmProofs.Block.PrefixLookup
import VllmProofs.Evictor.PdpProtection

/-!
How often `PDPEvictor.request_epoch` advances for one sequence. A lookup of its cached tokens
counts as a request unless the tracker answers it from what it remembers, and it remembers only
while the sequence is in prefill.
-/

namespace Vllm
open Exec Heaped Evictor

instance {α : Type} [PrefixCache α] : PrefixCache (Heaped α) where
  findCachedBlocksPrefix hashes := onSelf (PrefixCache.findCachedBlocksPrefix hashes)
  observeCacheAccesses hashes hint := onSelf (PrefixCache.observeCacheAccesses hashes hint)
  shouldPredictCacheHint s := PrefixCache.shouldPredictCacheHint s.self
  markBlocksAsAccessed ids now hint := onSelf (PrefixCache.markBlocksAsAccessed ids now hint)

/-! ### The request epoch of the evictor -/

namespace Evictor.PDPEvictor

variable {epoch : ℤ}

theorem observeEach_epoch (hits : Option (List Bool)) (index : ℕ) (seen hashes : List PrefixHash) :
    Preserves (fun s : PDPEvictor => s.requestEpoch = epoch) (observeEach hits index seen hashes) := by
  induction hashes generalizing index seen with
  | nil => exact .pure _
  | cons h rest ih =>
    refine .ite (ih _ _) (.bind (.modify fun _ same => same) fun _ => .bind ?_ fun hit => ?_)
    · unfold realHitAt
      split
      · exact .pure _
      · exact .pure _
      · split
        · exact .pure _
        · exact .throw _
    · refine .bind ?_ fun _ => ih _ _
      refine .bind .get fun _ => .bind ?_ fun _ => .bind (.modify fun _ same => same) fun _ => ?_
      · intro s same
        refine (recordReuse_wp h s).mono ?_ fun _ _ impossible => impossible.elim
        rintro _ _ ⟨counts, rfl⟩
        exact same
      · refine .bind .get fun s => ?_
        split
        · exact .pure _
        · refine .modify fun s same => ?_
          unfold protectedNow
          split <;> exact same

theorem observeCacheAccesses_epoch (hashes : List PrefixHash) (hint : Option CacheHint)
    (hits : Option (List Bool)) (s : PDPEvictor) :
    wp (observeCacheAccesses hashes hint hits)
      (fun _ t => t.requestEpoch = s.requestEpoch + if hashes = [] then 0 else 1) (fun _ _ => True) s := by
  cases hashes with
  | nil => simp [observeCacheAccesses]
  | cons h rest =>
    simp only [observeCacheAccesses, wp_bind, wp_modify]
    refine (@observeEach_epoch (s.requestEpoch + 1) hits 0 [] (h :: rest) _ rfl).mono
      (fun _ u same => ?_) fun _ _ _ => trivial
    refine (recomputeIfDue_wp u).mono ?_ fun _ _ impossible => impossible.elim
    rintro _ _ ⟨distance, rfl⟩
    simpa using same

end Evictor.PDPEvictor

/-! ### One lookup -/

namespace ComputedBlocksTracker
open Tracking

variable [PythonHash]

theorem length_hashBlocks (extra : Option ℤ) (prev : PrefixHash) (blocks : List (List TokenId)) :
    (hashBlocks extra prev blocks).length = blocks.length := by
  induction blocks generalizing prev with
  | nil => rfl
  | cons tokens rest ih => simp [hashBlocks, ih]

theorem updateSeqHashes_wp (seq : Sequence) (s : ComputedBlocksTracker) :
    wp (updateSeqHashes seq) (fun _ t => 0 < s.blockSize ∧ s.enableCaching = true ∧
      ∃ hashes, hashes.length = seq.getLen / s.blockSize ∧
        t = { s with seqIdToBlocksHashes := s.seqIdToBlocksHashes.insert seq.seqId hashes })
      (fun _ _ => True) s := by
  unfold updateSeqHashes
  simp only [wp_bind, wp_get, wp_assertThat, wp_ite, wp_throw, wp_set, implies_true, and_true]
  intro caching recorded
  refine ⟨trivial, fun positive => ⟨Nat.pos_of_ne_zero positive, caching, _, ?_, rfl⟩⟩
  rw [Sequence.length_getTokenIds] at recorded ⊢
  have fewer := (Nat.le_div_iff_mul_le (Nat.pos_of_ne_zero positive)).mpr recorded
  rw [List.length_append, length_hashBlocks, blocksBetween, List.length_map, List.length_range']
  omega

def requestEpoch (s : Tracking ComputedBlocksTracker (Heaped (PrefixCachingBlockAllocator PDPEvictor))) :
    ℤ := s.allocator.self.evictor.requestEpoch

omit [PythonHash] in
theorem observe_wp (hashes : List PrefixHash) (hint : Option CacheHint)
    (s : PrefixCachingBlockAllocator PDPEvictor) :
    wp (PrefixCachingBlockAllocator.observeCacheAccesses hashes hint) (fun _ t => ∃ e, t = { s with evictor := e } ∧
        e.requestEpoch = s.evictor.requestEpoch + if hashes = [] then 0 else 1)
      (fun _ _ => True) s := by
  show wp (PrefixCachingBlockAllocator.onEvictor (PDPEvictor.observeCacheAccesses hashes hint
    (some (hashes.map s.cachedBlocks.contains)))) _ _ s
  rw [PrefixCachingBlockAllocator.onEvictor, wp_zoom]
  refine (PDPEvictor.observeCacheAccesses_epoch hashes hint _ s.evictor).mono ?_ fun _ _ _ => trivial
  exact fun _ e same => ⟨e, rfl, same⟩

omit [PythonHash] in
theorem find_wp {ε : Type} [Evictor ε] (hashes : List PrefixHash) (s : PrefixCachingBlockAllocator ε) :
    wp (PrefixCachingBlockAllocator.findCachedBlocksPrefix hashes) (fun _ t => t = s)
      (fun _ _ => True) s := by
  have reads : ∀ h, wp (PrefixCachingBlockAllocator.blockIsCached h) (fun _ t => t = s)
      (fun _ _ => True) s := by
    intro h
    unfold PrefixCachingBlockAllocator.blockIsCached
    rw [wp_bind, wp_get]
    cases s.cachedBlocks.get? h with
    | none => rfl
    | some b =>
      unfold PrefixCachingBlockAllocator.blockIsComputed PrefixCachingBlockAllocator.trackerOf
      simp only [wp_bind, wp_get]
      cases s.blockTracker.get? b with
      | none => trivial
      | some tracker => cases active : tracker.active <;> simp [active]
  have loops : ∀ rounds lo hi, wp (PrefixCachingBlockAllocator.bisectLeft hashes rounds lo hi)
      (fun _ t => t = s) (fun _ _ => True) s := by
    intro rounds
    induction rounds with
    | zero => exact fun _ _ => rfl
    | succ rounds ih =>
      intro lo hi
      unfold PrefixCachingBlockAllocator.bisectLeft
      rw [wp_ite]
      refine ⟨fun _ => ?_, fun _ => rfl⟩
      rw [wp_bind]
      refine (reads _).mono ?_ fun _ _ _ => trivial
      rintro cached _ rfl
      rw [wp_ite]
      exact ⟨fun _ => ih _ _, fun _ => ih _ _⟩
  unfold PrefixCachingBlockAllocator.findCachedBlocksPrefix
  rw [wp_bind]
  exact (loops _ _ _).mono (fun _ _ same => same) fun _ _ _ => trivial

variable [Numpy]

/-- The tracker beside an allocator that uses `PDPEvictor`. -/
abbrev PdpTracking := Tracking ComputedBlocksTracker (Heaped (PrefixCachingBlockAllocator PDPEvictor))

/-- What one call of `get_num_cached_tokens` does to the epoch and to the tracker's memory. -/
structure LookedUp (s t : PdpTracking) (seq : Sequence) : Prop where
  positive : 0 < s.tracker.blockSize
  blockSize : t.tracker.blockSize = s.tracker.blockSize
  caching : t.tracker.enableCaching = s.tracker.enableCaching
  remembered : ∀ id, (t.tracker.seqIdToNumTokensComputed.contains id) =
    (decide (id = seq.seqId) || s.tracker.seqIdToNumTokensComputed.contains id)
  allocator : ∃ e, t.allocator = ⟨s.allocator.objects, { s.allocator.self with evictor := e }⟩
  epoch : requestEpoch t = requestEpoch s +
    if (s.tracker.seqIdToNumTokensComputed.contains seq.seqId = false ∨ seq.isPrefill = false) ∧
      s.tracker.blockSize ≤ seq.getLen then 1 else 0

variable {seq : Sequence}

omit [PythonHash] in
theorem lookUp_wp {hashes : List PrefixHash} {s : PdpTracking}
    (positive : 0 < s.tracker.blockSize) (full : hashes.length = seq.getLen / s.tracker.blockSize)
    (due : s.tracker.seqIdToNumTokensComputed.contains seq.seqId = false ∨ seq.isPrefill = false) :
    wp (lookUp seq hashes) (fun _ t => LookedUp s t seq) (fun _ _ => True) s := by
  have nonempty : hashes = [] ↔ ¬s.tracker.blockSize ≤ seq.getLen := by
    rw [← List.length_eq_zero_iff, full, Nat.div_eq_zero_iff]
    omega
  unfold lookUp onAllocator
  simp only [wp_bind, wp_zoom]
  refine (Heaped.wp_onSelf.mpr ?_)
  refine (observe_wp hashes seq.cacheHint s.allocator.self).mono ?_ fun _ _ _ => trivial
  rintro _ _ ⟨e, rfl, epoch⟩
  refine (Heaped.wp_onSelf.mpr ?_)
  refine (find_wp hashes _).mono ?_ fun _ _ _ => trivial
  rintro found _ rfl
  simp only [wp_get, onTracker, wp_zoom, wp_modify, wp_pure]
  refine ⟨positive, rfl, rfl, fun id => ?_, ⟨e, rfl⟩, ?_⟩
  · unfold Dict.contains
    rw [Dict.get?_insert]
    by_cases same : id = seq.seqId <;> simp [same]
  · show e.requestEpoch = _
    rw [epoch]
    simp only [nonempty, due, true_and, ite_not]
    rfl

theorem getNumCachedTokens_wp {s : PdpTracking} (caching : s.tracker.enableCaching = true) :
    wp (getNumCachedTokens seq) (fun _ t => LookedUp s t seq) (fun _ _ => True) s := by
  unfold getNumCachedTokens
  simp only [wp_bind, wp_get, wp_ite]
  refine ⟨fun off => by simp [caching] at off, fun _ => ?_⟩
  rw [onTracker, wp_zoom]
  refine (updateSeqHashes_wp seq s.tracker).mono ?_ fun _ _ _ => trivial
  rintro _ _ ⟨positive, -, hashes, full, rfl⟩
  have recorded : (s.tracker.seqIdToBlocksHashes.insert seq.seqId hashes).get? seq.seqId = some hashes :=
    Dict.get?_insert_self _ _ _
  -- an answer from memory starts no epoch, a lookup starts one if there is a hash to observe
  have looksUp : (s.tracker.seqIdToNumTokensComputed.contains seq.seqId = false ∨ seq.isPrefill = false) →
      wp (lookUp seq hashes) (fun _ t => LookedUp s t seq) (fun _ _ => True)
        ⟨{ s.tracker with
            seqIdToBlocksHashes := s.tracker.seqIdToBlocksHashes.insert seq.seqId hashes },
          s.allocator⟩ := by
    intro due
    refine (lookUp_wp ?_ ?_ ?_).mono ?_ fun _ _ _ => trivial
    · exact positive
    · exact full
    · exact due
    · rintro _ t ⟨-, size, on, remembered, allocator, epoch⟩
      exact ⟨positive, size, on, remembered, allocator, epoch⟩
  cases memory : s.tracker.seqIdToNumTokensComputed.get? seq.seqId with
  | none =>
    simp only [recorded]
    exact looksUp (Or.inl (by simp [Dict.contains, memory]))
  | some n =>
    have known : s.tracker.seqIdToNumTokensComputed.contains seq.seqId = true :=
      Dict.contains_iff.mpr ⟨n, memory⟩
    cases prefill : seq.isPrefill with
    | true =>
      simp only [wp_pure]
      refine ⟨positive, rfl, rfl, fun id => ?_, ⟨s.allocator.self.evictor, rfl⟩, ?_⟩
      · by_cases same : id = seq.seqId <;> simp [same, known]
      · simp [known, prefill]
        rfl
    | false =>
      simp only [recorded]
      exact looksUp (Or.inr prefill)

/-! ### Runs -/

inductive Act where
  | lookUp (seq : Sequence)
  | removeSeq (seqId : SeqId)
  /-- Any other use of the allocator. -/
  | call (c : Call)

/-- The tracker and, for each sequence, how far the epoch advanced in its lookups since the tracker
last dropped it. -/
structure Watched where
  state : PdpTracking
  advanced : SeqId → ℤ

def Step (s : Watched) : Act → Watched → Prop
  | .lookUp seq, t => (∃ n, getNumCachedTokens seq s.state = .ok n t.state) ∧
      t.advanced = Function.update s.advanced seq.seqId
        (s.advanced seq.seqId + (requestEpoch t.state - requestEpoch s.state))
  | .removeSeq id, t => (∃ u, onTracker (removeSeq id) s.state = .ok u t.state) ∧
      t.advanced = Function.update s.advanced id 0
  | .call c, t => (∀ hashes hint, c ≠ .observeCacheAccesses hashes hint) ∧
      t = ⟨{ s.state with allocator := after c.exec s.state.allocator }, s.advanced⟩

/-- The lookups of a sequence since the tracker last dropped it, latest first. -/
def lookups (id : SeqId) : List Act → List Sequence
  | [] => []
  | .lookUp seq :: earlier => if seq.seqId = id then seq :: lookups id earlier else lookups id earlier
  | .removeSeq id' :: earlier => if id' = id then [] else lookups id earlier
  | .call _ :: earlier => lookups id earlier

omit [PythonHash] [Numpy] in
@[simp] theorem lookups_lookUp (id : SeqId) (seq : Sequence) (earlier : List Act) :
    lookups id (.lookUp seq :: earlier) =
      if seq.seqId = id then seq :: lookups id earlier else lookups id earlier := rfl

omit [PythonHash] [Numpy] in
@[simp] theorem lookups_removeSeq (id id' : SeqId) (earlier : List Act) :
    lookups id (.removeSeq id' :: earlier) = if id' = id then [] else lookups id earlier := rfl

/-- The lookups that are not answered from memory, and have a full block to observe. -/
def requests (blockSize : ℕ) : List Sequence → List Sequence
  | [] => []
  | seq :: earlier =>
    if (earlier = [] ∨ seq.isPrefill = false) ∧ blockSize ≤ seq.getLen then
      seq :: requests blockSize earlier
    else requests blockSize earlier

/-- What the tracker remembers, and how far each sequence moved the epoch. -/
structure Counted (blockSize : ℕ) (ids : Finset BlockId) (history : List Act) (s : Watched) : Prop where
  size : s.state.tracker.blockSize = blockSize
  caching : s.state.tracker.enableCaching = true
  known : s.state.allocator.self.Known ids fun _ => True
  remembered : ∀ id, s.state.tracker.seqIdToNumTokensComputed.contains id = true ↔
    lookups id history ≠ []
  advanced : ∀ id, s.advanced id = (requests blockSize (lookups id history)).length

variable {blockSize : ℕ} {ids : Finset BlockId} {history : List Act} {s t : Watched}

theorem Counted.lookUp (counted : Counted blockSize ids history s)
    (step : Step s (.lookUp seq) t) : Counted blockSize ids (.lookUp seq :: history) t := by
  obtain ⟨⟨n, call⟩, advanced⟩ := step
  obtain ⟨-, size, caching, remembered, ⟨e, allocator⟩, epoch⟩ :=
    (getNumCachedTokens_wp counted.caching).ok call
  rw [counted.size] at size epoch
  refine ⟨size, caching.trans counted.caching, ?_, fun id => ?_, fun id => ?_⟩
  · rw [allocator]
    exact ⟨counted.known.counted, counted.known.tracked, counted.known.named, trivial⟩
  · rw [remembered id, Bool.or_eq_true, decide_eq_true_iff, counted.remembered id, lookups_lookUp]
    by_cases same : seq.seqId = id
    · simp [same]
    · simp [same, Ne.symm same]
  · rw [advanced, Function.update_apply, lookups_lookUp]
    by_cases same : id = seq.seqId
    · subst same
      have memory := counted.remembered seq.seqId
      rw [if_pos rfl, if_pos rfl, counted.advanced, epoch]
      have first : s.state.tracker.seqIdToNumTokensComputed.contains seq.seqId = false ↔
          lookups seq.seqId history = [] := by
        rw [← Bool.not_eq_true, memory, not_not]
      simp only [requests, first]
      split
      · rw [List.length_cons]
        push_cast
        omega
      · omega
    · rw [if_neg same, if_neg (Ne.symm same)]
      exact counted.advanced id

omit [PythonHash] [Numpy] in
theorem removeSeq_wp {id : SeqId} {s : ComputedBlocksTracker} (caching : s.enableCaching = true) :
    wp (removeSeq id) (fun _ t => t.blockSize = s.blockSize ∧ t.enableCaching = true ∧
        t.seqIdToNumTokensComputed = s.seqIdToNumTokensComputed.erase id) (fun _ _ => True) s := by
  unfold removeSeq
  simp [caching, wp_assertThat]

theorem Counted.removeSeq {id : SeqId} (counted : Counted blockSize ids history s)
    (step : Step s (.removeSeq id) t) : Counted blockSize ids (.removeSeq id :: history) t := by
  obtain ⟨state, moved⟩ := t
  obtain ⟨⟨u, call⟩, advanced⟩ := step
  obtain ⟨tracker, done, rfl⟩ := zoom_ok call
  obtain ⟨size, caching, erased⟩ := (removeSeq_wp counted.caching).ok done
  refine ⟨size.trans counted.size, caching, counted.known, fun id' => ?_, fun id' => ?_⟩
  · show tracker.seqIdToNumTokensComputed.contains id' = true ↔ _
    rw [erased, Dict.contains, Dict.get?_erase, lookups_removeSeq]
    by_cases same : id' = id
    · simp [same]
    · rw [if_neg same, if_neg (Ne.symm same)]
      exact counted.remembered id'
  · show moved id' = _
    rw [show moved = _ from advanced, Function.update_apply, lookups_removeSeq]
    by_cases same : id' = id
    · rw [if_pos same, if_pos same.symm]
      rfl
    · rw [if_neg same, if_neg (Ne.symm same)]
      exact counted.advanced id'

theorem Counted.call {c : Call} (counted : Counted blockSize ids history s)
    (step : Step s (.call c) t) : Counted blockSize ids (.call c :: history) t := by
  obtain ⟨-, rfl⟩ := step
  refine ⟨counted.size, counted.caching, ?_, counted.remembered, counted.advanced⟩
  refine (PrefixCachingBlockAllocator.exec_knows PrefixCachingBlockAllocator.kept_true c ?_).after
    counted.known
  exact fun hashes hint _ => PrefixCachingBlockAllocator.observeCacheAccesses_known hashes hint

/-- A new tracker beside a new allocator. -/
def start (blockSize : ℕ) (blockIds : List BlockId) (config : PdpSettings) : Watched where
  state.tracker.blockSize := blockSize
  state.tracker.enableCaching := true
  state.allocator := ⟨∅, .init .gpu blockSize blockIds (PDPEvictor.init config)⟩
  advanced _ := 0

theorem run_counted {blockIds : List BlockId} {config : PdpSettings}
    (run : Run Step (start blockSize blockIds config) history t) :
    Counted blockSize blockIds.toFinset history t := by
  refine run.invariant (I := Counted blockSize blockIds.toFinset) ?_ ?_
  · refine ⟨rfl, rfl, PrefixCachingBlockAllocator.init_known _ _ _ trivial, fun id => ?_, fun id => rfl⟩
    simp [start, Dict.contains, lookups]
  · intro h s act t counted step
    cases act with
    | lookUp seq => exact counted.lookUp step
    | removeSeq id => exact counted.removeSeq step
    | call c => exact counted.call step

omit [PythonHash] [Numpy] in
/-- The first lookup observes the full blocks it has; of the later ones, those out of prefill. -/
theorem length_requests (later : List Sequence) (first : Sequence) :
    (requests blockSize (later ++ [first])).length =
      later.countP (fun seq => !seq.isPrefill && decide (blockSize ≤ seq.getLen)) +
        if blockSize ≤ first.getLen then 1 else 0 := by
  induction later with
  | nil =>
    by_cases full : blockSize ≤ first.getLen
    · simp [requests, full]
    · simp [requests, full]
  | cons seq rest ih =>
    have more : rest ++ [first] ≠ [] := by simp
    rw [List.cons_append, requests]
    by_cases observed : seq.isPrefill = false ∧ blockSize ≤ seq.getLen
    · rw [if_pos ⟨.inr observed.1, observed.2⟩, List.length_cons, ih,
        List.countP_cons_of_pos (by simp [observed])]
      omega
    · rw [if_neg fun both => observed ⟨both.1.resolve_left more, both.2⟩, ih,
        List.countP_cons_of_neg (by simpa using observed)]

/-- The epoch advances exactly once for a sequence if and only if either its first lookup has a full
block and no later one with a full block is made out of prefill, or the first has none and exactly
one later lookup with a full block is. -/
theorem run_advanced (blockSize : ℕ) (blockIds : List BlockId) (config : PdpSettings)
    (history : List Act) (t : Watched) (run : Run Step (start blockSize blockIds config) history t)
    (id : SeqId) (later : List Sequence) (first : Sequence)
    (life : lookups id history = later ++ [first]) :
    t.advanced id = 1 ↔
      (blockSize ≤ first.getLen ∧
        ∀ seq ∈ later, blockSize ≤ seq.getLen → seq.isPrefill = true) ∨
      (first.getLen < blockSize ∧
        later.countP (fun seq => !seq.isPrefill && decide (blockSize ≤ seq.getLen)) = 1) := by
  have counted : t.advanced id = 1 ↔ (requests blockSize (later ++ [first])).length = 1 := by
    rw [(run_counted run).advanced, life]
    norm_cast
  have none : later.countP (fun seq => !seq.isPrefill && decide (blockSize ≤ seq.getLen)) = 0 ↔
      ∀ seq ∈ later, blockSize ≤ seq.getLen → seq.isPrefill = true := by
    rw [List.countP_eq_zero]
    refine forall_congr' fun seq => imp_congr_right fun _ => ?_
    cases seq.isPrefill <;> simp
  rw [counted, length_requests, ← none]
  by_cases full : blockSize ≤ first.getLen
  · simp [full, not_lt.mpr full]
  · simp [full, not_le.mp full]

/-! ### A sequence that starts to decode -/

def watch (s : Watched) (seq : Sequence) : Watched where
  state := after (getNumCachedTokens seq) s.state
  advanced := Function.update s.advanced seq.seqId (s.advanced seq.seqId +
    (requestEpoch (after (getNumCachedTokens seq) s.state) - requestEpoch s.state))

theorem watch_step {s : Watched}
    (returns : (result? (getNumCachedTokens seq) s.state).isSome = true) :
    Step s (.lookUp seq) (watch s seq) := by
  obtain ⟨n, returned⟩ := Option.isSome_iff_exists.mp returns
  obtain ⟨t, call⟩ := result?_eq_some.mp returned
  have same : (watch s seq).state = t := after_ok call
  exact ⟨⟨n, by rw [same, call]⟩, rfl⟩

end ComputedBlocksTracker

namespace ComputedBlocksTracker
open PrefixCachingBlockAllocator (digitsHash identityNumpy)

def prompt : Sequence := { seqId := 0, promptTokenIds := [1] }

def decoding : Sequence := { prompt with outputTokenIds := [2], numComputedTokens := 1, stage := .decode }

/-- The sequence is looked up while it waits, and once more in its first decode step. -/
def twice : List Act := [.lookUp decoding, .lookUp prompt]

def waited : Watched := @watch digitsHash identityNumpy (start 1 [0, 1] {}) prompt

def decoded : Watched := @watch digitsHash identityNumpy waited decoding

theorem twice_run : Run (@Step digitsHash identityNumpy) (start 1 [0, 1] {}) twice decoded :=
  .call (.call .start (@watch_step digitsHash identityNumpy _ _ (by decide +kernel)))
    (@watch_step digitsHash identityNumpy decoding waited (by decide +kernel))

theorem run_advanced_twice : decoded.advanced 0 ≠ 1 := by
  rw [Ne, @run_advanced digitsHash identityNumpy 1 [0, 1] {} _ _ twice_run 0 [decoding] prompt rfl]
  decide

/-- The first decode step counts as another request of the same sequence. -/
theorem decode_advances_again : ¬ ∀ (hash : PythonHash) (numpy : Numpy) (history : List Act)
    (t : Watched), Run (@Step hash numpy) (start 1 [0, 1] {}) history t →
    ∀ id later first, lookups id history = later ++ [first] → 1 ≤ first.getLen →
      t.advanced id = 1 := by
  intro claim
  have once := claim _ _ _ _ twice_run 0 [decoding] prompt rfl (by decide)
  exact absurd once (by decide +kernel)

end ComputedBlocksTracker
end Vllm
