import VllmProofs.Data.Wp
import VllmProofs.Evictor.PdpSimulation

/-!
What a run of `PDPEvictor` guarantees a protected block. The hash mapping follows the free table
as long as resident blocks differ in their content hashes, so an observation protects the block
that holds the hash. A block is protected from its latest addition, observation or update on, for
the protecting distance of that moment; an earlier protection that would last longer is lost.
-/

namespace Vllm.Evictor.PDPEvictor
open Exec

inductive Op where
  | observe (blockHashes : List PrefixHash) (hint : Option CacheHint)
      (realHits : Option (List Bool))
  | add (b : BlockId) (h : PrefixHash) (n : ℕ) (t : Time) (hint : Option CacheHint)
  | update (b : BlockId) (t : Time) (hint : Option CacheHint)
  | remove (b : BlockId)
  | evict

def Op.call : Op → Method PDPEvictor Unit
  | .observe hashes hint hits => observeCacheAccesses hashes hint hits
  | .add b h n t hint => PDPEvictor.add b h n t hint
  | .update b t hint => PDPEvictor.update b t hint
  | .remove b => PDPEvictor.remove b
  | .evict => do let _ ← PDPEvictor.evict

/-- An operation with the evictor it was called on. -/
structure Event where
  before : PDPEvictor
  op : Op

/-- No two resident blocks have the same content hash. -/
def Distinct (s : PDPEvictor) : Prop :=
  ∀ b c r q, s.freeTable.get? b = some r → s.freeTable.get? c = some q →
    r.contentHash = q.contentHash → b = c

/-- One call of a run, however it ends. -/
def Step (s : PDPEvictor) (e : Event) (t : PDPEvictor) : Prop :=
  e.before = s ∧ t = after e.op.call s ∧ Distinct t

/-- The hashes a batch gets to: it stops where it runs out of hit flags. -/
def observed (realHits : Option (List Bool)) (blockHashes : List PrefixHash) : List PrefixHash :=
  match realHits with
  | none | some [] => blockHashes
  | some hits => blockHashes.take hits.length

def hitFlag (realHits : Option (List Bool)) (blockHashes : List PrefixHash) (h : PrefixHash) : Bool :=
  match realHits with
  | none | some [] => false
  | some hits => hits.getD (blockHashes.idxOf h) false

/-! ### The hash mapping -/

/-- The mapping leads from the content hash of each resident block to the block. -/
def Mapped (s : PDPEvictor) : Prop :=
  ∀ h b, s.contentHashToBlockId.get? h = some b ↔
    ∃ r, s.freeTable.get? b = some r ∧ r.contentHash = h

theorem get?_forget (mapping : Dict PrefixHash BlockId) (h k : PrefixHash) (b : BlockId) :
    (forget mapping h b).get? k = if k = h ∧ mapping.get? h = some b then none else mapping.get? k := by
  unfold forget
  by_cases held : mapping.get? h = some b
  · rw [if_pos held, Dict.get?_erase]
    simp [held]
  · rw [if_neg held, if_neg fun both => held both.2]

variable {s : PDPEvictor} {r : PDPBlockMetaData} {t : PDPEvictor}

theorem Mapped.erase {b : BlockId} (mapped : Mapped s)
    (resident : s.freeTable.get? b = some r) (table : t.freeTable = s.freeTable.erase b)
    (mapping : t.contentHashToBlockId = forget s.contentHashToBlockId r.contentHash b) : Mapped t := by
  intro h c
  have held := (mapped r.contentHash b).mpr ⟨r, resident, rfl⟩
  rw [mapping, table, get?_forget, Dict.get?_erase]
  by_cases same : c = b
  · subst same
    constructor
    · intro found
      split at found
      · cases found
      · rename_i other
        obtain ⟨q, again, hash⟩ := (mapped h c).mp found
        cases resident.symm.trans again
        exact absurd ⟨hash.symm, held⟩ other
    · rintro ⟨q, found, -⟩
      simp at found
  · rw [if_neg same]
    by_cases hash : h = r.contentHash
    · subst hash
      rw [if_pos ⟨rfl, held⟩]
      constructor
      · intro found
        cases found
      · rintro ⟨q, found, hash⟩
        have also := (mapped r.contentHash c).mpr ⟨q, found, hash⟩
        rw [held] at also
        cases also
        exact absurd rfl same
    · rw [if_neg fun both => hash both.1]
      exact mapped h c

theorem Mapped.rewrite (mapped : Mapped s)
    (mapping : t.contentHashToBlockId = s.contentHashToBlockId)
    (table : ∀ b, (t.freeTable.get? b).map (fun r => r.contentHash) =
      (s.freeTable.get? b).map fun r => r.contentHash) : Mapped t := by
  intro h b
  rw [mapping, mapped h b, ← Option.map_eq_some_iff, ← table b, Option.map_eq_some_iff]

theorem add_eq (s : PDPEvictor) (b : BlockId) (h : PrefixHash) (n : ℕ) (time : Time)
    (hint : Option CacheHint) : ∃ record : PDPBlockMetaData,
      record.contentHash = h ∧ record.protectedUntilEpoch = s.requestEpoch + s.protectingDistance ∧
      record.reused = s.lastSeenEpoch.contains h ∧
      PDPEvictor.add b h n time hint s = .ok () { s with
        freeTable := s.freeTable.insert b record
        contentHashToBlockId := ((s.freeTable.get? b).elim s.contentHashToBlockId fun previous =>
          forget s.contentHashToBlockId previous.contentHash b).insert h b } := by
  refine ⟨{
    contentHash := h, numHashedTokens := n, lastAccessed := time, cacheHint := hint
    firstAccessEpoch := (s.lastSeenEpoch.get? h).getD s.requestEpoch
    lastAccessEpoch := (s.lastSeenEpoch.get? h).getD s.requestEpoch
    protectedUntilEpoch := s.requestEpoch + s.protectingDistance
    reused := s.lastSeenEpoch.contains h }, rfl, rfl, rfl, ?_⟩
  unfold PDPEvictor.add forgetPrevious forgetHashMapping
  rw [bind_apply, get_bind]
  cases resident : s.freeTable.get? b with
  | none => rfl
  | some previous => rfl

theorem Mapped.insert {b : BlockId} {record : PDPBlockMetaData} (mapped : Mapped s)
    (distinct : Distinct t) (table : t.freeTable = s.freeTable.insert b record)
    (mapping : t.contentHashToBlockId = ((s.freeTable.get? b).elim s.contentHashToBlockId fun previous =>
      forget s.contentHashToBlockId previous.contentHash b).insert record.contentHash b) : Mapped t := by
  have here : t.freeTable.get? b = some record := by
    rw [table, Dict.get?_insert_self]
  intro h c
  rw [mapping, Dict.get?_insert]
  by_cases hash : h = record.contentHash
  · subst hash
    rw [if_pos rfl]
    constructor
    · rintro found
      cases found
      exact ⟨record, here, rfl⟩
    · rintro ⟨q, found, hash⟩
      exact congrArg some (distinct b c record q here found hash.symm)
  · rw [if_neg hash]
    -- any other hash loses only its mapping to `b`
    have others : ((s.freeTable.get? b).elim s.contentHashToBlockId fun previous =>
        forget s.contentHashToBlockId previous.contentHash b).get? h = some c ↔
        c ≠ b ∧ s.contentHashToBlockId.get? h = some c := by
      cases resident : s.freeTable.get? b with
      | none =>
        refine ⟨fun found => ⟨?_, found⟩, fun both => both.2⟩
        rintro rfl
        obtain ⟨q, again, -⟩ := (mapped h c).mp found
        rw [resident] at again
        cases again
      | some previous =>
        have held := (mapped previous.contentHash b).mpr ⟨previous, resident, rfl⟩
        simp only [Option.elim_some, get?_forget]
        constructor
        · intro found
          split at found
          · cases found
          · rename_i other
            refine ⟨?_, found⟩
            rintro rfl
            obtain ⟨q, again, hash⟩ := (mapped h c).mp found
            cases resident.symm.trans again
            exact other ⟨hash.symm, held⟩
        · rintro ⟨different, found⟩
          rw [if_neg, found]
          rintro ⟨rfl, -⟩
          rw [held] at found
          cases found
          exact different rfl
    rw [others, mapped h c]
    constructor
    · rintro ⟨different, q, found, hash⟩
      exact ⟨q, by rw [table, Dict.get?_insert_ne different, found], hash⟩
    · rintro ⟨q, found, hash'⟩
      by_cases same : c = b
      · subst same
        cases here.symm.trans found
        exact absurd hash'.symm hash
      · rw [table, Dict.get?_insert_ne same] at found
        exact ⟨same, q, found, hash'⟩

/-! ### One batch of observations -/

/-- What an access to the hashes `done` makes of a record. -/
def accessed (s : PDPEvictor) (hit : PrefixHash → Bool) (done : List PrefixHash)
    (r : PDPBlockMetaData) : PDPBlockMetaData :=
  if r.contentHash ∈ done then
    r.protect s.requestEpoch s.protectingDistance
      (hit r.contentHash || s.lastSeenEpoch.contains r.contentHash)
  else r

structure Observed (s u : PDPEvictor) (hit : PrefixHash → Bool) (done : List PrefixHash) : Prop where
  settings : u.settings = s.settings
  epoch : u.requestEpoch = s.requestEpoch
  distance : u.protectingDistance = s.protectingDistance
  mapping : u.contentHashToBlockId = s.contentHashToBlockId
  seen : ∀ h, u.lastSeenEpoch.contains h = true ↔ s.lastSeenEpoch.contains h = true ∨ h ∈ done
  table : ∀ b, u.freeTable.get? b = (s.freeTable.get? b).map (accessed s hit done)

theorem accessed_contentHash (s : PDPEvictor) (hit : PrefixHash → Bool) (done : List PrefixHash)
    (r : PDPBlockMetaData) : (accessed s hit done r).contentHash = r.contentHash := by
  unfold accessed
  split <;> rfl

variable {hit : PrefixHash → Bool} {done : List PrefixHash} {h : PrefixHash}

theorem accessed_other (different : r.contentHash ≠ h) :
    accessed s hit (done ++ [h]) r = accessed s hit done r := by
  unfold accessed
  simp [different]

theorem recordReuse_wp (h : PrefixHash) (s : PDPEvictor) :
    wp (recordReuse h) (fun _ t => ∃ counts, t = { s with reuseDistanceCounts := counts })
      (fun _ _ => False) s := by
  unfold recordReuse bucketDistance
  rw [wp_bind, wp_get]
  cases s.lastSeenEpoch.get? h with
  | none => exact ⟨s.reuseDistanceCounts, rfl⟩
  | some previous =>
    obtain ⟨bucket, same⟩ := bucketed_positive s.positive (s.requestEpoch - previous)
    simp only [wp_bind, wp_get, same, wp_pure, wp_modify]
    exact ⟨_, rfl⟩

variable {u : PDPEvictor}

theorem observeHash_wp (mapped : Mapped s) (before : Observed s u hit done) (new : h ∉ done) :
    wp (observeHash h (hit h)) (fun _ t => Observed s t hit (done ++ [h])) (fun _ _ => False) u := by
  have unseen : u.lastSeenEpoch.contains h = s.lastSeenEpoch.contains h := by
    have same := before.seen h
    simp only [new, or_false] at same
    exact Bool.eq_iff_iff.mpr same
  unfold observeHash recordSeen protectHolder protectBlock
  simp only [wp_bind, wp_get]
  refine (recordReuse_wp h u).mono ?_ fun _ _ impossible => impossible
  rintro _ _ ⟨counts, rfl⟩
  have seen : ∀ k, (u.lastSeenEpoch.insert h u.requestEpoch).contains k = true ↔
      s.lastSeenEpoch.contains k = true ∨ k ∈ done ++ [h] := by
    intro k
    have old := before.seen k
    unfold Dict.contains at old ⊢
    rw [Dict.get?_insert]
    by_cases same : k = h <;> simp [same, old]
  simp only [wp_modify, before.mapping]
  cases held : s.contentHashToBlockId.get? h with
  | none =>
    refine ⟨before.settings, before.epoch, before.distance, rfl, seen, fun b => ?_⟩
    show u.freeTable.get? b = _
    rw [before.table b]
    cases resident : s.freeTable.get? b with
    | none => rfl
    | some r =>
      have different : r.contentHash ≠ h := by
        rintro rfl
        rw [(mapped r.contentHash b).mpr ⟨r, resident, rfl⟩] at held
        cases held
      rw [Option.map_some, Option.map_some, accessed_other different]
  | some c =>
    obtain ⟨r, resident, rfl⟩ := (mapped h c).mp held
    have same : accessed s hit done r = r := if_neg new
    have here : u.freeTable.get? c = some r := by
      rw [before.table c, resident, Option.map_some, same]
    simp only [wp_modify, protectedNow, here]
    refine ⟨before.settings, before.epoch, before.distance, rfl, seen, fun b => ?_⟩
    show (u.freeTable.insert c _).get? b = _
    rw [Dict.get?_insert]
    by_cases isHolder : b = c
    · subst isHolder
      have now : accessed s hit (done ++ [r.contentHash]) r =
          r.protect s.requestEpoch s.protectingDistance
            (hit r.contentHash || s.lastSeenEpoch.contains r.contentHash) := by
        unfold accessed
        rw [if_pos (by simp)]
      have flag : (u.lastSeenEpoch.get? r.contentHash).isSome =
          s.lastSeenEpoch.contains r.contentHash := unseen
      rw [if_pos rfl, resident, Option.map_some, now, flag]
      simp only [before.epoch, before.distance]
    · rw [if_neg isHolder, before.table b]
      cases other : s.freeTable.get? b with
      | none => rfl
      | some q =>
        have different : q.contentHash ≠ r.contentHash := by
          intro hash
          have also := (mapped r.contentHash b).mpr ⟨q, other, hash⟩
          rw [held] at also
          cases also
          exact isHolder rfl
        rw [Option.map_some, Option.map_some, accessed_other different]

/-- Whatever `observe_cache_accesses` counts beside, the blocks are as before. -/
theorem Observed.recount {v : PDPEvictor}
    (before : Observed s u hit done) (settings : v.settings = u.settings)
    (epoch : v.requestEpoch = u.requestEpoch) (distance : v.protectingDistance = u.protectingDistance)
    (mapping : v.contentHashToBlockId = u.contentHashToBlockId)
    (seen : v.lastSeenEpoch = u.lastSeenEpoch) (table : v.freeTable = u.freeTable) :
    Observed s v hit done := by
  refine ⟨settings.trans before.settings, epoch.trans before.epoch, distance.trans before.distance,
    mapping.trans before.mapping, fun h => ?_, fun b => ?_⟩
  · rw [seen, before.seen h]
  · rw [table, before.table b]

theorem Observed.again (before : Observed s u hit done) (known : h ∈ done) :
    Observed s u hit (done ++ [h]) := by
  have same : ∀ k, k ∈ done ++ [h] ↔ k ∈ done := by
    intro k
    simp only [List.mem_append, List.mem_singleton, or_iff_left_iff_imp]
    rintro rfl
    exact known
  refine ⟨before.settings, before.epoch, before.distance, before.mapping, fun k => ?_, fun b => ?_⟩
  · rw [before.seen k, same k]
  · rw [before.table b]
    congr 1
    funext r
    unfold accessed
    simp only [same]

/-- From `s` to `t`, a batch has been observed as far as it gets. -/
def Batched (s : PDPEvictor) (hits : Option (List Bool)) (all : List PrefixHash) (t : PDPEvictor) :
    Prop :=
  ∃ batch, Observed s t (hitFlag hits all) batch ∧ ∀ h, h ∈ batch ↔ h ∈ observed hits all

/-- The batch goes through its hashes in order, and stops where the hit flags run out. -/
theorem observeEach_wp {hits : Option (List Bool)}
    {all rest seen : List PrefixHash} (mapped : Mapped s) (split : all = done ++ rest)
    (before : Observed s u (hitFlag hits all) done) (recorded : ∀ h, h ∈ seen ↔ h ∈ done)
    (reached : ∀ h ∈ done, h ∈ observed hits all) :
    wp (observeEach hits done.length seen rest) (fun _ => Batched s hits all)
      (fun _ => Batched s hits all) u := by
  induction rest generalizing done seen u with
  | nil =>
    refine ⟨done, before, fun h => ⟨reached h, fun member => ?_⟩⟩
    rw [List.append_nil] at split
    subst split
    unfold observed at member
    split at member
    · exact member
    · exact member
    · exact List.mem_of_mem_take member
  | cons h rest ih =>
    have shift : all = (done ++ [h]) ++ rest := by simp [split]
    have next : ∀ seen' v, Observed s v (hitFlag hits all) (done ++ [h]) →
        (∀ k, k ∈ seen' ↔ k ∈ done ++ [h]) → h ∈ observed hits all →
        wp (observeEach hits (done.length + 1) seen' rest) (fun _ => Batched s hits all)
          (fun _ => Batched s hits all) v := by
      intro seen' v now recorded' here
      have reached' : ∀ k ∈ done ++ [h], k ∈ observed hits all := by
        intro k member
        rcases List.mem_append.mp member with old | new
        · exact reached k old
        · rw [List.mem_singleton.mp new]
          exact here
      have goOn := ih shift now recorded' reached'
      rwa [List.length_append, List.length_singleton] at goOn
    unfold observeEach
    by_cases again : h ∈ seen
    · rw [if_pos again]
      have known : h ∈ done := (recorded h).mp again
      refine next seen u (before.again known) (fun k => ?_) (reached h known)
      rw [recorded k, List.mem_append, List.mem_singleton, or_iff_left_of_imp]
      rintro rfl
      exact known
    · have new : h ∉ done := fun known => again ((recorded h).mpr known)
      have position : all.idxOf h = done.length := by
        rw [split, List.idxOf_append_of_notMem new, List.idxOf_cons_self, Nat.add_zero]
      rw [if_neg again]
      simp only [wp_bind, wp_modify]
      have counted := before.recount (v := { u with totalObservedAccesses := u.totalObservedAccesses + 1 })
        rfl rfl rfl rfl rfl rfl
      have observe : h ∈ observed hits all →
          wp (observeHash h (hitFlag hits all h)) (fun _ t =>
            wp (observeEach hits (done.length + 1) (h :: seen) rest) (fun _ => Batched s hits all)
              (fun _ => Batched s hits all) t) (fun _ => Batched s hits all)
            { u with totalObservedAccesses := u.totalObservedAccesses + 1 } := by
        intro here
        refine (observeHash_wp mapped counted new).mono (fun _ t now => ?_) fun _ _ impossible =>
          impossible.elim
        refine next (h :: seen) t now (fun k => ?_) here
        rw [List.mem_cons, recorded k, List.mem_append, List.mem_singleton, or_comm]
      have member : h ∈ all := by simp [split]
      cases hits with
      | none => exact observe member
      | some flags =>
        by_cases empty : flags = []
        · subst empty
          exact observe member
        · have limit : observed (some flags) all = all.take flags.length := by
            unfold observed
            split
            · contradiction
            · simp_all
            · simp_all
          cases flag : flags[done.length]? with
          | some hit =>
            have call : realHitAt (some flags) done.length = pure hit := by
              cases flags with
              | nil => contradiction
              | cons first others => simp only [realHitAt, flag]
            obtain ⟨inside, -⟩ := List.getElem?_eq_some_iff.mp flag
            have same : hitFlag (some flags) all h = hit := by
              cases flags with
              | nil => contradiction
              | cons first others =>
                simp only [hitFlag, position, List.getD_eq_getElem?_getD, flag, Option.getD_some]
            rw [call, wp_pure]
            rw [same] at observe
            refine observe (limit ▸ List.mem_take_iff_getElem.mpr ⟨done.length, ?_, ?_⟩)
            · have long : done.length < all.length := by simp [split]
              omega
            · simp [split]
          | none =>
            -- no flag is left: the rest of the batch is not observed
            have call : realHitAt (some flags) done.length = throw .indexError := by
              cases flags with
              | nil => contradiction
              | cons first others => simp only [realHitAt, flag]
            have short : flags.length ≤ done.length := List.getElem?_eq_none_iff.mp flag
            rw [call, wp_throw]
            refine ⟨done, counted, fun k => ⟨reached k, fun known => ?_⟩⟩
            rw [limit, split, List.take_append_of_le_length short] at known
            exact List.mem_of_mem_take known

/-! ### The events of a run -/

def Event.protects (e : Event) (b : BlockId) : Bool :=
  match e.op with
  | .observe hashes _ hits =>
    (e.before.freeTable.get? b).any fun r => r.contentHash ∈ observed hits hashes
  | .add c _ _ _ _ | .update c _ _ => c = b
  | .remove _ | .evict => false

/-- The request epoch a call works in. -/
def Event.epoch (e : Event) : ℤ :=
  match e.op with
  | .observe (_ :: _) _ _ => e.before.requestEpoch + 1
  | _ => e.before.requestEpoch

/-- The epoch and the protecting distance of the latest call that protected the block. -/
def latestProtection (b : BlockId) : List Event → Option (ℤ × ℤ)
  | [] => none
  | e :: earlier =>
    if e.protects b then some (e.epoch, e.before.protectingDistance) else latestProtection b earlier

def seenBefore (h : PrefixHash) : List Event → Bool
  | [] => false
  | e :: earlier =>
    match e.op with
    | .observe hashes _ hits => h ∈ observed hits hashes || seenBefore h earlier
    | _ => seenBefore h earlier

/-- Has the block been reused: was its hash known when it was added, or has it been updated or,
with its hash known or with a hit, observed since? -/
def reused (b : BlockId) : List Event → Bool
  | [] => false
  | e :: earlier =>
    match e.op with
    | .add c h _ _ _ => if c = b then seenBefore h earlier else reused b earlier
    | .update c _ _ => c = b || reused b earlier
    | .observe hashes _ hits =>
      reused b earlier || (e.before.freeTable.get? b).any fun r =>
        r.contentHash ∈ observed hits hashes &&
          (hitFlag hits hashes r.contentHash || seenBefore r.contentHash earlier)
    | .remove _ | .evict => reused b earlier

structure Follows (history : List Event) (s : PDPEvictor) : Prop where
  mapped : Mapped s
  seen : ∀ h, s.lastSeenEpoch.contains h = seenBefore h history
  protection : ∀ b r, s.freeTable.get? b = some r →
    ∃ e d, latestProtection b history = some (e, d) ∧ r.protectedUntilEpoch = e + d
  reused : ∀ b r, s.freeTable.get? b = some r → r.reused = PDPEvictor.reused b history

variable {s t : PDPEvictor} {history : List Event} {b : BlockId}

theorem Follows.idle {op : Op} (follows : Follows history s)
    (quiet : ∀ b r, s.freeTable.get? b = some r → (⟨s, op⟩ : Event).protects b = false ∧
      PDPEvictor.reused b (⟨s, op⟩ :: history) = PDPEvictor.reused b history)
    (unseen : ∀ h, seenBefore h (⟨s, op⟩ :: history) = seenBefore h history) :
    Follows (⟨s, op⟩ :: history) s := by
  refine ⟨follows.mapped, fun h => (follows.seen h).trans (unseen h).symm, fun b r resident => ?_,
    fun b r resident => ?_⟩
  · obtain ⟨e, d, latest, until'⟩ := follows.protection b r resident
    refine ⟨e, d, ?_, until'⟩
    rw [latestProtection, (quiet b r resident).1]
    exact latest
  · rw [(quiet b r resident).2]
    exact follows.reused b r resident

theorem Follows.erase {op : Op} (follows : Follows history s)
    (resident : s.freeTable.get? b = some r) (table : t.freeTable = s.freeTable.erase b)
    (mapping : t.contentHashToBlockId = forget s.contentHashToBlockId r.contentHash b)
    (same : t.lastSeenEpoch = s.lastSeenEpoch)
    (kind : op = .evict ∨ ∃ c, op = .remove c) : Follows (⟨s, op⟩ :: history) t := by
  have stays : ∀ c q, t.freeTable.get? c = some q → s.freeTable.get? c = some q := by
    intro c q found
    rw [table, Dict.get?_erase] at found
    split at found
    · cases found
    · exact found
  refine ⟨follows.mapped.erase resident table mapping, fun h => ?_, fun c q found => ?_,
    fun c q found => ?_⟩
  · rw [same, follows.seen h]
    rcases kind with rfl | ⟨c, rfl⟩ <;> rfl
  · obtain ⟨e, d, latest, until'⟩ := follows.protection c q (stays c q found)
    refine ⟨e, d, ?_, until'⟩
    rcases kind with rfl | ⟨c', rfl⟩ <;> exact latest
  · rw [follows.reused c q (stays c q found)]
    rcases kind with rfl | ⟨c', rfl⟩ <;> rfl

theorem recomputeIfDue_wp (s : PDPEvictor) :
    wp recomputeIfDue (fun _ t => ∃ distance, t = { s with protectingDistance := distance })
      (fun _ _ => False) s := by
  obtain ⟨best, computed⟩ := bestProtectingDistance_positive s.positive s.reuseDistanceCounts
    s.totalObservedAccesses s.protectingDistance
  unfold recomputeIfDue recomputeProtectingDistance
  simp only [wp_bind, wp_get, divides_positive _ s.positive.2.1, wp_pure, wp_ite, computed, wp_set]
  exact ⟨fun _ => ⟨best, rfl⟩, fun _ => ⟨s.protectingDistance, rfl⟩⟩

/-- A batch is one request epoch, and the distance learned from it counts from then on. -/
theorem observeCacheAccesses_after {hashes : List PrefixHash} (hint : Option CacheHint)
    (hits : Option (List Bool)) (mapped : Mapped s) (some' : hashes ≠ []) :
    ∃ u distance, Batched { s with requestEpoch := s.requestEpoch + 1 } hits hashes u ∧
      after (observeCacheAccesses hashes hint hits) s = { u with protectingDistance := distance } := by
  have start : Observed { s with requestEpoch := s.requestEpoch + 1 }
      { s with requestEpoch := s.requestEpoch + 1 } (hitFlag hits hashes) [] := by
    refine ⟨rfl, rfl, rfl, rfl, by simp, fun b => ?_⟩
    cases s.freeTable.get? b <;> rfl
  have outcome : wp (observeCacheAccesses hashes hint hits)
      (fun _ t => ∃ u distance, Batched { s with requestEpoch := s.requestEpoch + 1 } hits hashes u ∧
        t = { u with protectingDistance := distance })
      (fun _ t => ∃ u distance, Batched { s with requestEpoch := s.requestEpoch + 1 } hits hashes u ∧
        t = { u with protectingDistance := distance }) s := by
    cases hashes with
    | nil => exact absurd rfl some'
    | cons first rest =>
      simp only [observeCacheAccesses, wp_bind, wp_modify]
      have batch : wp (observeEach hits 0 [] (first :: rest)) _ _ _ :=
        observeEach_wp (s := { s with requestEpoch := s.requestEpoch + 1 }) mapped
          (List.nil_append (first :: rest)).symm start (by simp) (by simp)
      refine batch.mono (fun _ u batched => ?_) fun _ u batched => ⟨u, _, batched, rfl⟩
      refine (recomputeIfDue_wp u).mono ?_ fun _ _ impossible => impossible.elim
      rintro _ t ⟨distance, rfl⟩
      exact ⟨u, distance, batched, rfl⟩
  unfold after
  cases call : observeCacheAccesses hashes hint hits s with
  | ok a t => exact outcome.ok call
  | error e t => exact outcome.error call

variable {hint : Option CacheHint}

theorem Follows.observe {hashes : List PrefixHash} {hits : Option (List Bool)}
    (follows : Follows history s) :
    Follows (⟨s, .observe hashes hint hits⟩ :: history) (after (Op.observe hashes hint hits).call s) := by
  cases hashes with
  | nil =>
    have none : observed hits [] = [] := by
      unfold observed
      split <;> simp
    show Follows (⟨s, .observe [] hint hits⟩ :: history) s
    refine follows.idle (fun b r resident => ⟨?_, ?_⟩) fun h => ?_
    · simp [Event.protects, none]
    · simp [PDPEvictor.reused, none]
    · simp [seenBefore, none]
  | cons first rest =>
    obtain ⟨u, distance, ⟨batch, now, members⟩, same⟩ :=
      observeCacheAccesses_after hint hits follows.mapped (List.cons_ne_nil first rest)
    have result : after (Op.observe (first :: rest) hint hits).call s =
        { u with protectingDistance := distance } := same
    rw [result]
    have known : ∀ b q, u.freeTable.get? b = some q → ∃ r, s.freeTable.get? b = some r ∧
        q = accessed { s with requestEpoch := s.requestEpoch + 1 } (hitFlag hits (first :: rest)) batch r := by
      intro b q found
      rw [now.table b, Option.map_eq_some_iff] at found
      obtain ⟨r, resident, rfl⟩ := found
      exact ⟨r, resident, rfl⟩
    refine ⟨?_, fun h => ?_, fun b q found => ?_, fun b q found => ?_⟩
    · refine follows.mapped.rewrite now.mapping fun b => ?_
      rw [now.table b, Option.map_map]
      congr 1
      funext r
      exact accessed_contentHash _ _ _ r
    · have seen := now.seen h
      rw [members h] at seen
      rw [Bool.eq_iff_iff, seenBefore, Bool.or_eq_true, decide_eq_true_iff, or_comm, ← follows.seen h]
      exact seen
    · obtain ⟨r, resident, rfl⟩ := known b q found
      rw [latestProtection]
      by_cases member : r.contentHash ∈ batch
      · have protects : (⟨s, .observe (first :: rest) hint hits⟩ : Event).protects b = true := by
          simp [Event.protects, resident, (members _).mp member]
        rw [if_pos protects]
        refine ⟨_, _, rfl, ?_⟩
        unfold accessed
        rw [if_pos member]
        rfl
      · have out : r.contentHash ∉ observed hits (first :: rest) := fun h => member ((members _).mpr h)
        have protects : (⟨s, .observe (first :: rest) hint hits⟩ : Event).protects b = false := by
          simp [Event.protects, resident, out]
        obtain ⟨e, d, latest, until'⟩ := follows.protection b r resident
        rw [protects]
        refine ⟨e, d, latest, ?_⟩
        unfold accessed
        rw [if_neg member]
        exact until'
    · obtain ⟨r, resident, rfl⟩ := known b q found
      have old := follows.reused b r resident
      simp only [PDPEvictor.reused, resident, Option.any_some]
      unfold accessed
      by_cases member : r.contentHash ∈ batch
      · rw [if_pos member]
        simp only [PDPBlockMetaData.protect, old, (members _).mp member, decide_true, Bool.true_and,
          follows.seen]
      · have out : r.contentHash ∉ observed hits (first :: rest) := fun h => member ((members _).mpr h)
        rw [if_neg member, old]
        simp [out]

variable {c : BlockId}

theorem Follows.add {n : ℕ} {time : Time}
    (follows : Follows history s) (distinct : Distinct (after (Op.add c h n time hint).call s)) :
    Follows (⟨s, .add c h n time hint⟩ :: history) (after (Op.add c h n time hint).call s) := by
  obtain ⟨record, rfl, until', flag, call⟩ := add_eq s c h n time hint
  have result : after (Op.add c record.contentHash n time hint).call s = _ := after_ok call
  rw [result] at distinct ⊢
  refine ⟨follows.mapped.insert distinct rfl rfl, follows.seen, fun b q found => ?_, fun b q found => ?_⟩
  · simp only [Dict.get?_insert] at found
    rw [latestProtection]
    by_cases same : b = c
    · rw [if_pos same, Option.some.injEq] at found
      subst found
      have protects : (⟨s, .add c record.contentHash n time hint⟩ : Event).protects b = true := by
        simp [Event.protects, same]
      rw [if_pos protects]
      exact ⟨_, _, rfl, until'⟩
    · rw [if_neg same] at found
      have protects : (⟨s, .add c record.contentHash n time hint⟩ : Event).protects b = false := by
        simp [Event.protects, Ne.symm same]
      rw [protects]
      exact follows.protection b q found
  · simp only [Dict.get?_insert] at found
    simp only [PDPEvictor.reused]
    by_cases same : b = c
    · rw [if_pos same, Option.some.injEq] at found
      subst found
      rw [if_pos same.symm, flag, follows.seen]
    · rw [if_neg same] at found
      rw [if_neg (Ne.symm same)]
      exact follows.reused b q found

theorem update_present {block : PDPBlockMetaData} (time : Time) (hint : Option CacheHint)
    (resident : s.freeTable.get? c = some block) : PDPEvictor.update c time hint s = .ok () { s with
      freeTable := s.freeTable.insert c (PDPBlockMetaData.protect
        { block with lastAccessed := time, cacheHint := hint } s.requestEpoch s.protectingDistance true) } := by
  simp [PDPEvictor.update, resident, protectBlock, protectedNow]

theorem Follows.update {time : Time} (follows : Follows history s) :
    Follows (⟨s, .update c time hint⟩ :: history) (after (Op.update c time hint).call s) := by
  cases held : s.freeTable.get? c with
  | none =>
    have result : after (Op.update c time hint).call s = s := by
      simp [Op.call, PDPEvictor.update, held, after]
    rw [result]
    refine follows.idle (fun b r resident => ?_) fun _ => rfl
    have different : c ≠ b := by
      rintro rfl
      rw [held] at resident
      cases resident
    simp [Event.protects, PDPEvictor.reused, different]
  | some block =>
    have result : after (Op.update c time hint).call s = _ := after_ok (update_present time hint held)
    rw [result]
    refine ⟨?_, follows.seen, fun b q found => ?_, fun b q found => ?_⟩
    · refine follows.mapped.rewrite rfl fun b => ?_
      simp only [Dict.get?_insert]
      split
      · rename_i same
        rw [same, held]
        rfl
      · rfl
    · simp only [Dict.get?_insert] at found
      rw [latestProtection]
      by_cases same : b = c
      · rw [if_pos same, Option.some.injEq] at found
        subst found
        have protects : (⟨s, .update c time hint⟩ : Event).protects b = true := by
          simp [Event.protects, same]
        rw [if_pos protects]
        exact ⟨_, _, rfl, rfl⟩
      · rw [if_neg same] at found
        have protects : (⟨s, .update c time hint⟩ : Event).protects b = false := by
          simp [Event.protects, Ne.symm same]
        rw [protects]
        exact follows.protection b q found
    · simp only [Dict.get?_insert] at found
      simp only [PDPEvictor.reused]
      by_cases same : b = c
      · rw [if_pos same, Option.some.injEq] at found
        subst found
        simp [PDPBlockMetaData.protect, same]
      · rw [if_neg same] at found
        simpa [Ne.symm same] using follows.reused b q found

theorem Follows.remove (follows : Follows history s) :
    Follows (⟨s, .remove c⟩ :: history) (after (Op.remove c).call s) := by
  cases held : s.freeTable.get? c with
  | none =>
    have result : after (Op.remove c).call s = s := by
      simp [Op.call, PDPEvictor.remove, held, after]
    rw [result]
    exact follows.idle (fun _ _ _ => ⟨rfl, rfl⟩) fun _ => rfl
  | some block =>
    have result : after (Op.remove c).call s = { s with
        freeTable := s.freeTable.erase c
        contentHashToBlockId := forget s.contentHashToBlockId block.contentHash c } := by
      simp [Op.call, PDPEvictor.remove, held, after, forgetHashMapping]
    rw [result]
    exact follows.erase held rfl rfl rfl (Or.inr ⟨c, rfl⟩)

theorem Follows.evict (follows : Follows history s) :
    Follows (⟨s, .evict⟩ :: history) (after Op.evict.call s) := by
  by_cases empty : s.freeTable.size = 0
  · have result : after Op.evict.call s = s :=
      after_error (bind_of_error (PdpSimulation.pdpEvict_empty empty))
    rw [result]
    exact follows.idle (fun _ _ _ => ⟨rfl, rfl⟩) fun _ => rfl
  · obtain ⟨b, record, least, call⟩ := PdpSimulation.pdpEvict_least empty
    have result : after Op.evict.call s = _ := after_ok (bind_of_ok call)
    rw [result]
    exact follows.erase least.1 rfl rfl rfl (Or.inl rfl)

theorem Follows.step {e : Event} (follows : Follows history s) (step : Step s e t) :
    Follows (e :: history) t := by
  obtain ⟨before, op⟩ := e
  obtain ⟨rfl, rfl, distinct⟩ := step
  cases op with
  | observe hashes hint hits => exact follows.observe
  | add c h n time hint => exact follows.add distinct
  | update c time hint => exact follows.update
  | remove c => exact follows.remove
  | evict => exact follows.evict

theorem run_follows {config : PdpSettings} (run : Run Step (PDPEvictor.init config) history s) :
    Follows history s := by
  refine run.invariant (I := Follows) ⟨?_, ?_, ?_, ?_⟩ fun _ _ _ _ follows step => follows.step step
  · intro h b
    constructor
    · intro found
      cases found
    · rintro ⟨r, found, -⟩
      cases found
  · intro h
    rfl
  · intro b r found
    cases found
  · intro b r found
    cases found

/-! ### Victims -/

/-- The latest protection of a resident block has run out. -/
def Expired (history : List Event) (s : PDPEvictor) (b : BlockId) : Prop :=
  contains s b = true ∧ ∃ e d, latestProtection b history = some (e, d) ∧ e + d ≤ s.requestEpoch

theorem Follows.expired_iff (follows : Follows history s) (resident : s.freeTable.get? b = some r) :
    Expired history s b ↔ r.protectedUntilEpoch ≤ s.requestEpoch := by
  obtain ⟨e, d, latest, until'⟩ := follows.protection b r resident
  rw [until']
  constructor
  · rintro ⟨-, e', d', latest', past⟩
    rw [latest] at latest'
    cases latest'
    exact past
  · exact fun past => ⟨Dict.contains_iff.mpr ⟨r, resident⟩, e, d, latest, past⟩

/-- What a run guarantees: the mapping follows the table; an unexpired block stays as long as
another one has expired; and if none has, one that was never reused goes first. -/
theorem run_protects (config : PdpSettings) (history : List Event) (s : PDPEvictor)
    (run : Run Step (PDPEvictor.init config) history s) :
    (∀ h b, s.contentHashToBlockId.get? h = some b ↔
      ∃ r, s.freeTable.get? b = some r ∧ r.contentHash = h) ∧
    ∀ b h t, PDPEvictor.evict s = .ok (b, h) t →
      ((∃ c, Expired history s c) → Expired history s b) ∧
      ((∀ c, contains s c = true → ¬Expired history s c) →
        (∃ c, contains s c = true ∧ reused c history = false) → reused b history = false) := by
  have follows := run_follows run
  refine ⟨follows.mapped, fun b h t evicted => ?_⟩
  by_cases empty : s.freeTable.size = 0
  · rw [PdpSimulation.pdpEvict_empty empty] at evicted
    cases evicted
  · obtain ⟨victim, record, ⟨resident, least⟩, call⟩ := PdpSimulation.pdpEvict_least empty
    rw [call] at evicted
    cases evicted
    refine ⟨?_, ?_⟩
    · rintro ⟨c, expired⟩
      obtain ⟨q, found⟩ := Dict.contains_iff.mp expired.1
      have past := (follows.expired_iff found).mp expired
      have below := least c q found
      rw [follows.expired_iff resident]
      by_contra safe
      unfold victimKey at below
      rw [if_neg safe, if_pos past] at below
      simp [Sum.Lex.toLex_le_toLex] at below
    · rintro none ⟨c, member, fresh⟩
      obtain ⟨q, found⟩ := Dict.contains_iff.mp member
      have safe : ¬q.protectedUntilEpoch ≤ s.requestEpoch := fun past =>
        none c member ((follows.expired_iff found).mpr past)
      have safe' : ¬record.protectedUntilEpoch ≤ s.requestEpoch := fun past =>
        none b (Dict.contains_iff.mpr ⟨record, resident⟩) ((follows.expired_iff resident).mpr past)
      have below := least c q found
      unfold victimKey at below
      rw [if_neg safe, if_neg safe'] at below
      rw [← follows.reused b record resident]
      rw [← follows.reused c q found] at fresh
      rw [fresh] at below
      have first : record.reused.toNat ≤ false.toNat := by
        rcases Prod.Lex.toLex_le_toLex.mp (Sum.Lex.inr_le_inr_iff.mp below) with lower | ⟨same, -⟩
        · exact lower.le
        · exact same.le
      cases flag : record.reused with
      | false => rfl
      | true => simp [flag] at first

/-! ### A protecting distance that shrinks -/

/-- The evictor after the given operations, latest first. -/
def execute (config : PdpSettings) : List Op → PDPEvictor
  | [] => PDPEvictor.init config
  | op :: earlier => after op.call (execute config earlier)

def events (config : PdpSettings) : List Op → List Event
  | [] => []
  | op :: earlier => ⟨execute config earlier, op⟩ :: events config earlier

theorem execute_run {config : PdpSettings} {ops : List Op}
    (distinct : ∀ earlier, earlier <:+ ops → Distinct (execute config earlier)) :
    Run Step (PDPEvictor.init config) (events config ops) (execute config ops) := by
  induction ops with
  | nil => exact .start
  | cons op earlier ih =>
    refine .call (ih fun before suffix => ?_) ⟨rfl, rfl, ?_⟩
    · exact distinct before (suffix.trans (List.suffix_cons op earlier))
    · exact distinct (op :: earlier) (List.suffix_refl _)

theorem distinct_of_nodup (s : PDPEvictor)
    (nodup : (s.freeTable.items.map fun x => x.2.contentHash).Nodup) : Distinct s := by
  intro b c r q found found' same
  have eq := List.inj_on_of_nodup_map nodup (Dict.mem_items_iff.mpr found)
    (Dict.mem_items_iff.mpr found') same
  exact congrArg Prod.fst eq

def shrinking : PdpSettings := { initialPd := 5, recomputeInterval := 1 }

/-- A block is observed at epochs 1, 2 and 3; the distance learned at epoch 2 is 1. -/
def observedThrice : List Op :=
  [.observe [9] none none, .observe [7] none none, .observe [7] none none, .observe [7] none none,
    .add 0 7 16 0 none]

/-- Then another is added, one epoch after the last observation of the first. -/
def addedLater : List Op := .add 1 8 16 0 none :: observedThrice

theorem addedLater_distinct {earlier : List Op} (suffix : earlier <:+ addedLater) :
    Distinct (execute shrinking earlier) := by
  have all : ∀ before ∈ addedLater.tails,
      ((execute shrinking before).freeTable.items.map fun x => x.2.contentHash).Nodup := by
    decide +kernel
  exact distinct_of_nodup _ (all earlier ((List.mem_tails _ _).mpr suffix))

theorem observedThrice_run : Run Step (PDPEvictor.init shrinking) (events shrinking observedThrice)
    (execute shrinking observedThrice) :=
  execute_run fun _ suffix => addedLater_distinct (suffix.trans (List.suffix_cons _ _))

theorem addedLater_run : Run Step (PDPEvictor.init shrinking) (events shrinking addedLater)
    (execute shrinking addedLater) :=
  execute_run fun _ suffix => addedLater_distinct suffix

theorem addedLater_evict : result? PDPEvictor.evict (execute shrinking addedLater) = some (0, 7) ∧
    (∀ b ∈ [0, 1], (execute shrinking addedLater).freeTable.contains b = true) ∧
    (execute shrinking addedLater).requestEpoch = 4 ∧
    latestProtection 0 (events shrinking addedLater) = some (3, 1) ∧
    latestProtection 1 (events shrinking addedLater) = some (4, 1) := by
  decide +kernel

theorem run_protects_addedLater :
    ∃ t, PDPEvictor.evict (execute shrinking addedLater) = .ok (0, 7) t ∧
      Expired (events shrinking addedLater) (execute shrinking addedLater) 0 ∧
      contains (execute shrinking addedLater) 1 = true ∧
      ¬Expired (events shrinking addedLater) (execute shrinking addedLater) 1 := by
  obtain ⟨evicts, resident, epoch, first, second⟩ := addedLater_evict
  obtain ⟨t, evicted⟩ := result?_eq_some.mp evicts
  have past : Expired (events shrinking addedLater) (execute shrinking addedLater) 0 :=
    ⟨resident 0 (by simp), 3, 1, first, by rw [epoch]; decide⟩
  refine ⟨t, evicted, ((run_protects shrinking _ _ addedLater_run).2 0 7 t evicted).1 ⟨0, past⟩,
    resident 1 (by simp), ?_⟩
  rintro ⟨-, e, d, latest, expired⟩
  cases latest.symm.trans second
  rw [epoch] at expired
  cases expired

theorem observedThrice_evict :
    result? PDPEvictor.evict (execute shrinking observedThrice) = some (0, 7) ∧
    (execute shrinking observedThrice).requestEpoch = 4 ∧
    (execute shrinking observedThrice).freeTable.contains 0 = true ∧
    latestProtection 0 (events shrinking observedThrice) = some (3, 1) := by
  decide +kernel

theorem observedThrice_expired :
    Expired (events shrinking observedThrice) (execute shrinking observedThrice) 0 := by
  obtain ⟨-, epoch, resident, latest⟩ := observedThrice_evict
  exact ⟨resident, 3, 1, latest, by rw [epoch]; decide⟩

/-- At epoch 4 the block goes, though it was observed at epoch 1 under a distance of 5. -/
theorem earlier_protection_lost : ¬ ∀ (config : PdpSettings) (history : List Event) (s : PDPEvictor),
    Run Step (PDPEvictor.init config) history s →
    ∀ later e earlier, history = later ++ e :: earlier →
      (∀ e' ∈ later, ∃ hashes hint hits, e'.op = .observe hashes hint hits) →
      ∀ b h t, e.protects b = true → PDPEvictor.evict s = .ok (b, h) t →
        (∃ c, Expired history s c) → e.epoch + e.before.protectingDistance ≤ s.requestEpoch := by
  intro claim
  obtain ⟨result, epoch, -, -⟩ := observedThrice_evict
  obtain ⟨t, evicted⟩ := result?_eq_some.mp result
  have bound := claim shrinking _ _ observedThrice_run
    ((events shrinking observedThrice).take 3)
    ⟨execute shrinking [.add 0 7 16 0 none], .observe [7] none none⟩
    (events shrinking [.add 0 7 16 0 none]) rfl (by
      intro e' member
      have kinds : ∀ e' ∈ (events shrinking observedThrice).take 3,
          ∃ hashes hint hits, e'.op = .observe hashes hint hits := by
        simp [events, observedThrice]
      exact kinds e' member) 0 7 t (by decide +kernel) evicted ⟨0, observedThrice_expired⟩
  rw [epoch] at bound
  exact absurd bound (by decide +kernel)

end Vllm.Evictor.PDPEvictor
