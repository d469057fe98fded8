import VllmProofs.Data.SortedDict
import VllmProofs.Evictor.Pdp
import VllmProofs.Evictor.Scheduler

/-!
`LRUMLEvictor`: each cache hint carries a policy, blocks are scored under their own policy, and
an index sorted by score gives up the victim. Keys of the index may be stale, RRIP blocks age
while `evict` looks for a victim, and `to_delete_blocks` overtakes the index.
-/

namespace Vllm.Evictor
open Exec

/-- A key `(score, last_accessed, block_id)` of `sorted_dict`. -/
abbrev ScoreKey := Score ×ₗ Time ×ₗ BlockId

/-- The order of `LRUMLEvictor._pdp_victim_key`. -/
abbrev MlVictimKey := (ℤ ×ₗ Time ×ₗ BlockId) ⊕ₗ (ℕ ×ₗ ℤ ×ₗ ℤ ×ₗ BlockId)

structure LRUMLEvictor where
  freeTable : Dict BlockId BlockMetaData := ∅
  sortedDict : SortedDict ScoreKey (BlockId × PrefixHash) := ∅
  idToLastAccess : Dict ℤ Time := ∅
  idToFirstAccess : Dict BlockId Time := ∅
  rripValues : Dict BlockId ℕ := ∅
  /-- `to_delete_blocks`, latest record first. -/
  toDeleteBlocks : List (BlockId × PrefixHash × Time) := []
  lastRefreshTime : Time := 0
  scheduler : EvictionPolicyScheduler := {}
  settings : PdpSettings := {}
  pdpRequestEpoch : ℤ := 0
  pdpProtectingDistance : ℤ := settings.initialPd
  pdpLastSeenEpoch : Dict PrefixHash ℤ := ∅
  pdpReuseDistanceCounts : Dict ℤ ℤ := ∅
  pdpTotalAccesses : ℤ := 0
  pdpProtectedUntilEpoch : Dict BlockId ℤ := ∅
  pdpReused : Dict BlockId Bool := ∅
  pdpLastAccessEpoch : Dict BlockId ℤ := ∅
  pdpContentHashToBlockId : Dict PrefixHash BlockId := ∅
  clock : Clock

/-- The index key of a block as the free table describes it. -/
def BlockMetaData.scoreKey (block : BlockMetaData) (blockId : BlockId) : ScoreKey :=
  toLex (block.score, toLex (block.lastAccessed, blockId))

def CacheHint.ownPolicy (hint : CacheHint) : Option Policy :=
  if truthy hint.useRrip then some .rrip
  else if truthy hint.useLru then some .lru
  else if truthy hint.useFifo then some .fifo
  else hint.schedulerPolicy

theorem CacheHint.ownPolicy_bind {hint : CacheHint} {policy : Policy} (h : hint.ownPolicy = none) :
    ({ hint with schedulerPolicy := some policy } : CacheHint).ownPolicy = some policy := by
  unfold ownPolicy at h ⊢
  split at h
  · cases h
  · split at h
    · cases h
    · split at h
      · cases h
      · simp [*]

/-- The hint of a block the final policy takes over. -/
def CacheHint.rebound (hint : CacheHint) (finalPolicy : Policy) : CacheHint :=
  { hint with
    useLru := none, useRrip := none, useFifo := none, schedulerPolicy := some finalPolicy }

namespace LRUMLEvictor

def inspectInterval : Time := 5

def contains (s : LRUMLEvictor) (blockId : BlockId) : Bool := s.freeTable.contains blockId

def numBlocks (s : LRUMLEvictor) : ℕ := s.freeTable.size

def time : Method LRUMLEvictor Time := do
  let s ← get
  set { s with clock := { s.clock with reads := s.clock.reads + 1 } }
  return s.clock.readings s.clock.reads

def onScheduler {α : Type} : Method (Timed EvictionPolicyScheduler) α → Method LRUMLEvictor α :=
  zoom (fun s => (s.scheduler, s.clock)) (fun (scheduler, clock) s => { s with scheduler, clock })

def getPolicy (scheduler : EvictionPolicyScheduler) : Option CacheHint → Policy
  | none => .lru
  | some hint =>
    match hint.ownPolicy with
    | some policy => policy
    | none =>
      if scheduler.enabled then scheduler.currentPolicy
      else if hint.nextTimestamp.isSome then .belady
      else .ml

def setCapacity [Numpy] (capacity : ℤ) : Method LRUMLEvictor Unit :=
  onScheduler (EvictionPolicyScheduler.setCapacity capacity)

/-! ### PDP helpers -/

def pdpBucketDistance (distance : ℤ) : Method LRUMLEvictor ℤ := do
  let s ← get
  bucketed s.settings distance

/-- The PDP metadata of a block, if it is resident, after an access. -/
def protectedNow (blockId : BlockId) (reused : Bool) (s : LRUMLEvictor) : LRUMLEvictor :=
  if s.freeTable.contains blockId then { s with
    pdpProtectedUntilEpoch :=
      s.pdpProtectedUntilEpoch.insert blockId (s.pdpRequestEpoch + s.pdpProtectingDistance)
    pdpLastAccessEpoch := s.pdpLastAccessEpoch.insert blockId s.pdpRequestEpoch
    pdpReused := if reused then s.pdpReused.insert blockId true else s.pdpReused }
  else s

def pdpProtectBlock (blockId : BlockId) (reused : Bool) : Method LRUMLEvictor Unit :=
  modify (protectedNow blockId reused)

def pdpRecomputeProtectingDistance : Method LRUMLEvictor Unit := do
  let s ← get
  let pdpProtectingDistance ← bestProtectingDistance s.settings s.pdpReuseDistanceCounts
    s.pdpTotalAccesses s.pdpProtectingDistance
  modify fun s => { s with pdpProtectingDistance }

/-- The reuse distance of an access to a hash seen before. -/
def recordReuse (contentHash : PrefixHash) : Method LRUMLEvictor Unit := do
  let s ← get
  match s.pdpLastSeenEpoch.get? contentHash with
  | none => pure ()
  | some previous =>
    let distance ← pdpBucketDistance (s.pdpRequestEpoch - previous)
    modify fun s => { s with
      pdpReuseDistanceCounts := countReuse s.pdpReuseDistanceCounts distance }

def recordSeen (contentHash : PrefixHash) : Method LRUMLEvictor Unit :=
  modify fun s => { s with
    pdpLastSeenEpoch := s.pdpLastSeenEpoch.insert contentHash s.pdpRequestEpoch }

/-- The protection of the resident block that holds a hash. -/
def protectHolder (contentHash : PrefixHash) (reused : Bool) : Method LRUMLEvictor Unit := do
  let s ← get
  match s.pdpContentHashToBlockId.get? contentHash with
  | none => pure ()
  | some blockId =>
    if s.freeTable.contains blockId then pdpProtectBlock blockId reused else pure ()

/-- The last two lines of `_pdp_observe`. -/
def recomputeIfDue : Method LRUMLEvictor Unit := do
  let s ← get
  if ← divides s.pdpTotalAccesses s.settings.recomputeInterval then
    pdpRecomputeProtectingDistance

def pdpObserve (contentHash : PrefixHash) (realHit : Option Bool) : Method LRUMLEvictor Unit := do
  modify fun s => { s with
    pdpRequestEpoch := s.pdpRequestEpoch + 1
    pdpTotalAccesses := s.pdpTotalAccesses + 1 }
  let s ← get
  let previousEpoch := s.pdpLastSeenEpoch.get? contentHash
  recordReuse contentHash
  recordSeen contentHash
  protectHolder contentHash (realHit.getD false || previousEpoch.isSome)
  recomputeIfDue

def pdpScore (s : LRUMLEvictor) (blockId : BlockId) : ℚ :=
  let protectedUntil := (s.pdpProtectedUntilEpoch.get? blockId).getD 0
  if protectedUntil ≤ s.pdpRequestEpoch then
    -3000000000000000 + ((s.pdpLastAccessEpoch.get? blockId).getD 0 : ℤ)
  else
    let remaining : ℤ := max 0 (protectedUntil - s.pdpRequestEpoch)
    if (s.pdpReused.get? blockId).getD false then -1000000000000000 - (remaining : ℚ)
    else -2000000000000000 - (remaining : ℚ)

def pdpVictimKey (s : LRUMLEvictor) (blockId : BlockId) (block : BlockMetaData) : MlVictimKey :=
  let protectedUntil := (s.pdpProtectedUntilEpoch.get? blockId).getD 0
  if protectedUntil ≤ s.pdpRequestEpoch then
    toLex (.inl (toLex ((s.pdpLastAccessEpoch.get? blockId).getD 0,
      toLex (block.lastAccessed, blockId))))
  else
    let remaining := max 0 (protectedUntil - s.pdpRequestEpoch)
    let reused := (s.pdpReused.get? blockId).getD false
    toLex (.inr (toLex (reused.toNat, toLex (-remaining,
      toLex (-(s.pdpLastAccessEpoch.get? blockId).getD 0, blockId)))))

/-! ### Scores and the index -/

def noted (score : Score) : Method LRUMLEvictor Score := do
  if score = .nan then modify fun s => { s with clock := { s.clock with sawNan := true } }
  return score

def calcScore [Numpy] (blockId : BlockId) (lastAccessed : Time) (cacheHint : Option CacheHint) :
    Method LRUMLEvictor Score := do
  let s ← get
  match getPolicy s.scheduler cacheHint with
  | .rrip => return .number (-(((s.rripValues.get? blockId).getD rripInsertRrpv : ℕ) : ℚ))
  | .lru => return .number lastAccessed
  | .fifo =>
    match s.idToFirstAccess.get? blockId with
    | some firstAccess => return .number firstAccess
    | none => throw .keyError
  | .pdp => return .number (pdpScore s blockId)
  | .belady =>
    match cacheHint.bind CacheHint.nextTimestamp with
    | some nextTimestamp => return .number (-nextTimestamp)
    | none => throw .keyError
  | .ml =>
    match cacheHint.bind CacheHint.probHasNext with
    | none => return .number lastAccessed
    | some probHasNext =>
      match cacheHint.bind CacheHint.expScale with
      | none => throw .keyError
      | some expScale =>
        let now ← time
        noted (probabilityOfFutureArrival Numpy.exp probHasNext expScale (now - lastAccessed))

def rebuildEach [Numpy] : List (BlockId × BlockMetaData) →
    SortedDict ScoreKey (BlockId × PrefixHash) →
    Method LRUMLEvictor (SortedDict ScoreKey (BlockId × PrefixHash))
  | [], newSortedDict => return newSortedDict
  | (blockId, block) :: rest, newSortedDict => do
    let score ← calcScore blockId block.lastAccessed block.cacheHint
    let block := { block with score }
    modify fun s => { s with freeTable := s.freeTable.insert blockId block }
    rebuildEach rest (newSortedDict.insert (block.scoreKey blockId) (blockId, block.contentHash))

def rebuildSortedDict [Numpy] : Method LRUMLEvictor Unit := do
  let s ← get
  let sortedDict ← rebuildEach s.freeTable.items ∅
  modify fun s => { s with sortedDict }

/-- One more step of age for every RRIP block among `items`. -/
def ageEach (scheduler : EvictionPolicyScheduler) :
    List (BlockId × BlockMetaData) → Dict BlockId ℕ → Dict BlockId ℕ
  | [], rripValues => rripValues
  | (blockId, block) :: rest, rripValues =>
    if getPolicy scheduler block.cacheHint = .rrip then
      let rrpv := (rripValues.get? blockId).getD rripInsertRrpv
      ageEach scheduler rest (rripValues.insert blockId (min rripMaxRrpv (rrpv + 1)))
    else ageEach scheduler rest rripValues

def ageRripBlocks [Numpy] : Method LRUMLEvictor Unit := do
  modify fun s => { s with rripValues := ageEach s.scheduler s.freeTable.items s.rripValues }
  rebuildSortedDict

/-- The test `_peek_valid_candidate` puts an index entry to: nan is not even equal to itself. -/
def current (freeTable : Dict BlockId BlockMetaData)
    (item : ScoreKey × BlockId × PrefixHash) : Bool :=
  match freeTable.get? item.2.1 with
  | some block => block.score ≠ .nan ∧ block.score = (ofLex item.1).1 ∧
      block.lastAccessed = (ofLex (ofLex item.1).2).1
  | none => false

def peekValidCandidate : Method LRUMLEvictor (Option (BlockId × PrefixHash)) := do
  let s ← get
  let sortedDict := s.sortedDict.dropWhile fun item => !current s.freeTable item
  set { s with sortedDict }
  return sortedDict.first?.map Prod.snd

/-- The message of `_remove_from_sorted_dict`. -/
def scoreNotFound : PyError := .valueError "the score is not found in sorted_dict"

def removeFromSortedDict (blockId : BlockId) : Method LRUMLEvictor Unit := do
  let s ← get
  match s.freeTable.get? blockId with
  | none => throw .keyError
  | some block =>
    if s.sortedDict.contains (block.scoreKey blockId) then
      set { s with sortedDict := s.sortedDict.erase (block.scoreKey blockId) }
    else throw scoreNotFound

/-! ### The scheduler's policy -/

def bindSchedulerPolicy (scheduler : EvictionPolicyScheduler) (cacheHint : Option CacheHint) :
    Method LRUMLEvictor (Option CacheHint) :=
  if !scheduler.enabled then return cacheHint
  else
    match cacheHint with
    | none => throw .attributeError
    | some hint =>
      match hint.ownPolicy with
      | some _ => return hint
      | none => return some { hint with schedulerPolicy := some scheduler.currentPolicy }

/-- A resident block under the final policy. -/
def rebindBlock (finalPolicy : Policy) (blockId : BlockId) (block : BlockMetaData)
    (hint : CacheHint) (s : LRUMLEvictor) : LRUMLEvictor :=
  let block := { block with cacheHint := some (hint.rebound finalPolicy) }
  let s := { s with freeTable := s.freeTable.insert blockId block }
  if finalPolicy = .rrip then
    { s with rripValues := s.rripValues.insert blockId rripInsertRrpv }
  else if finalPolicy = .pdp then { s with
    pdpProtectedUntilEpoch :=
      s.pdpProtectedUntilEpoch.insert blockId (s.pdpRequestEpoch + s.pdpProtectingDistance)
    pdpLastAccessEpoch := s.pdpLastAccessEpoch.insert blockId s.pdpRequestEpoch
    pdpReused := s.pdpReused.insert blockId true
    pdpContentHashToBlockId := s.pdpContentHashToBlockId.insert block.contentHash blockId }
  else s

/-- The loop of `_rebind_scheduler_policy_for_existing_blocks`. -/
def rebindEach (finalPolicy : Policy) : List (BlockId × BlockMetaData) → Method LRUMLEvictor Unit
  | [] => pure ()
  | (blockId, block) :: rest =>
    match block.cacheHint with
    | none => throw .typeError
    | some hint => do
      modify (rebindBlock finalPolicy blockId block hint)
      rebindEach finalPolicy rest

/-- The metadata the final policy starts from. -/
def seed (finalPolicy : Policy) (s : LRUMLEvictor) : LRUMLEvictor :=
  let s := { s with rripValues := ∅ }
  if finalPolicy = .pdp then { s with
    pdpProtectingDistance := match s.scheduler.shadowCaches.get? .pdp with
      | some shadowPdp => shadowPdp.pdpProtectingDistance
      | none => s.pdpProtectingDistance
    pdpContentHashToBlockId := ∅ }
  else s

def rebindSchedulerPolicyForExistingBlocks [Numpy] : Method LRUMLEvictor Unit := do
  let s ← get
  if !s.scheduler.enabled then return
  modify (seed s.scheduler.currentPolicy)
  rebindEach s.scheduler.currentPolicy s.freeTable.items
  modify fun s => { s with toDeleteBlocks := [] }
  rebuildSortedDict

def observeCacheAccess [Numpy] (contentHash : PrefixHash) (cacheHint : Option CacheHint)
    (realHit : Option Bool) : Method LRUMLEvictor Unit := do
  let s ← get
  if s.scheduler.enabled && !s.scheduler.finalized then
    let finalizedNow ← onScheduler (EvictionPolicyScheduler.observe contentHash cacheHint realHit)
    if finalizedNow then rebindSchedulerPolicyForExistingBlocks
  else if s.scheduler.finalized && s.scheduler.currentPolicy = .pdp then
    pdpObserve contentHash realHit

/-! ### Eviction -/

/-- Is this record of `to_delete_blocks` about a resident block at its present access time? -/
def recordValid (freeTable : Dict BlockId BlockMetaData) (record : BlockId × PrefixHash × Time) :
    Bool :=
  match freeTable.get? record.1 with
  | some block => block.lastAccessed = record.2.2
  | none => false

/-- The `while True` loop of `evict`, for at most the given number of rounds. -/
def selectVictim [Numpy] : ℕ → Method LRUMLEvictor (BlockId × PrefixHash)
  | 0 => throw .recursionError
  | rounds + 1 => do
    let s ← get
    match s.toDeleteBlocks with
    | record :: rest =>
      set { s with toDeleteBlocks := rest }
      if recordValid s.freeTable record then return (record.1, record.2.1)
      else selectVictim rounds
    | [] =>
      match ← peekValidCandidate with
      | none => throw noUsableMemory
      | some (blockId, contentHash) =>
        let hint := (s.freeTable.get? blockId).bind BlockMetaData.cacheHint
        let rrpv := (s.rripValues.get? blockId).getD rripInsertRrpv
        if getPolicy s.scheduler hint = .rrip ∧ rrpv < rripMaxRrpv then
          ageRripBlocks
          selectVictim rounds
        else
          removeFromSortedDict blockId
          return (blockId, contentHash)

/-- What leaves with a block that `evict` has chosen. -/
def takenOut (blockId : BlockId) (policy : Policy) (s : LRUMLEvictor) : LRUMLEvictor :=
  { s with
    rripValues := if policy = .rrip then s.rripValues.erase blockId else s.rripValues
    freeTable := s.freeTable.erase blockId
    idToFirstAccess := s.idToFirstAccess.erase blockId }

def takeOut (blockId : BlockId) : Method LRUMLEvictor Unit := do
  let s ← get
  match s.freeTable.get? blockId with
  | none => throw (.valueError "block is not in the sorted_dict")
  | some block => set (takenOut blockId (getPolicy s.scheduler block.cacheHint) s)

/-- What leaves with a block that the PDP branch of `evict` has chosen. -/
def takeOutPdp (blockId : BlockId) (contentHash : PrefixHash) (s : LRUMLEvictor) : LRUMLEvictor :=
  { s with
    pdpContentHashToBlockId := forget s.pdpContentHashToBlockId contentHash blockId
    pdpProtectedUntilEpoch := s.pdpProtectedUntilEpoch.erase blockId
    pdpLastAccessEpoch := s.pdpLastAccessEpoch.erase blockId
    pdpReused := s.pdpReused.erase blockId
    freeTable := s.freeTable.erase blockId
    idToFirstAccess := s.idToFirstAccess.erase blockId }

/-- The branch of `evict` taken when the first resident block follows PDP. -/
def evictPdp : Method LRUMLEvictor (BlockId × PrefixHash) := do
  let s ← get
  match s.freeTable.items.argmin fun item => pdpVictimKey s item.1 item.2 with
  | none => throw (.valueError "min() arg is an empty sequence")
  | some (blockId, block) =>
    removeFromSortedDict blockId
    modify (takeOutPdp blockId block.contentHash)
    return (blockId, block.contentHash)

/-- The policy `evict` samples: that of the first resident block. -/
def samplePolicy (s : LRUMLEvictor) : Option Policy :=
  s.freeTable.values.head?.map fun block => getPolicy s.scheduler block.cacheHint

def evict [Numpy] : Method LRUMLEvictor (BlockId × PrefixHash) := do
  let s ← get
  match samplePolicy s with
  | none => throw noUsableMemory
  | some .pdp => evictPdp
  | some _ =>
    -- every round but the last pops a record or ages the RRIP blocks
    let victim ← selectVictim (s.toDeleteBlocks.length + rripMaxRrpv + 1)
    takeOut victim.1
    return victim

/-! ### Refresh, add, update and remove -/

/-- The keys `(last_accessed, cache_hint['id'])` by which `_refresh` sorts the resident blocks. -/
def survivalList : List (BlockId × BlockMetaData) → Method LRUMLEvictor (List (BlockId × ℤ × Time))
  | [] => return []
  | (blockId, block) :: rest => do
    match block.cacheHint with
    | none => throw .typeError
    | some hint =>
      match hint.id with
      | none => throw .keyError
      | some id =>
        let others ← survivalList rest
        return (blockId, id, block.lastAccessed) :: others

def markOutdated : List (BlockId × ℤ × Time) → Method LRUMLEvictor Unit
  | [] => pure ()
  | (blockId, id, _) :: rest => do
    let s ← get
    match s.freeTable.get? blockId with
    | none => throw .keyError
    | some block =>
      let policy := getPolicy s.scheduler block.cacheHint
      if policy = .rrip ∨ policy = .pdp then markOutdated rest
      else
        match s.idToLastAccess.get? id with
        | none => throw .keyError
        | some lastAccess =>
          set (if lastAccess = block.lastAccessed then s else { s with
            toDeleteBlocks :=
              (blockId, block.contentHash, block.lastAccessed) :: s.toDeleteBlocks })
          markOutdated rest

def refresh [Numpy] : Method LRUMLEvictor Unit := do
  rebuildSortedDict
  let now ← time
  modify fun s => { s with lastRefreshTime := now }
  let s ← get
  let survival ← survivalList s.freeTable.items
  markOutdated (survival.insertionSort fun x y =>
    (toLex (x.2.2, x.2.1) : Time ×ₗ ℤ) ≤ toLex (y.2.2, y.2.1))

/-- `self.id_to_last_access[cache_hint['id']] = last_accessed` -/
def recordLastAccess (cacheHint : Option CacheHint) (lastAccessed : Time) :
    Method LRUMLEvictor Unit :=
  match cacheHint with
  | none => throw .typeError
  | some hint =>
    match hint.id with
    | none => throw .keyError
    | some id => modify fun s => { s with
        idToLastAccess := s.idToLastAccess.insert id lastAccessed }

/-- The RRPV `add` gives a block that has none. -/
def seedRrip (blockId : BlockId) (policy : Policy) (s : LRUMLEvictor) : LRUMLEvictor :=
  if policy = .rrip ∧ s.rripValues.contains blockId = false then
    { s with rripValues := s.rripValues.insert blockId rripInsertRrpv }
  else s

/-- The mapping without the way from the block's old hash to it. -/
def forgetOld (blockId : BlockId) (s : LRUMLEvictor) : Dict PrefixHash BlockId :=
  match s.freeTable.get? blockId with
  | some oldBlock => forget s.pdpContentHashToBlockId oldBlock.contentHash blockId
  | none => s.pdpContentHashToBlockId

/-- The PDP metadata `add` gives a block. -/
def seedPdp (blockId : BlockId) (contentHash : PrefixHash) (policy : Policy) (s : LRUMLEvictor) :
    LRUMLEvictor :=
  if policy = .pdp then { s with
    pdpProtectedUntilEpoch :=
      s.pdpProtectedUntilEpoch.insert blockId (s.pdpRequestEpoch + s.pdpProtectingDistance)
    pdpLastAccessEpoch := s.pdpLastAccessEpoch.insert blockId
      ((s.pdpLastSeenEpoch.get? contentHash).getD s.pdpRequestEpoch)
    pdpReused := s.pdpReused.insert blockId (s.pdpLastSeenEpoch.contains contentHash)
    pdpContentHashToBlockId := (forgetOld blockId s).insert contentHash blockId }
  else s

/-- The first-access time `add` gives a block that has none. -/
def seedFirstAccess (blockId : BlockId) (lastAccessed : Time) (s : LRUMLEvictor) : LRUMLEvictor :=
  if s.idToFirstAccess.contains blockId then s
  else { s with idToFirstAccess := s.idToFirstAccess.insert blockId lastAccessed }

/-- The metadata `add` prepares before it scores the block. -/
def prepare (blockId : BlockId) (contentHash : PrefixHash) (lastAccessed : Time) (policy : Policy)
    (s : LRUMLEvictor) : LRUMLEvictor :=
  seedFirstAccess blockId lastAccessed (seedPdp blockId contentHash policy
    (seedRrip blockId policy s))

def insertBlock (blockId : BlockId) (block : BlockMetaData) (s : LRUMLEvictor) : LRUMLEvictor :=
  { s with
    freeTable := s.freeTable.insert blockId block
    sortedDict := s.sortedDict.insert (block.scoreKey blockId) (blockId, block.contentHash) }

/-- The last two lines of `add`. -/
def refreshIfDue [Numpy] : Method LRUMLEvictor Unit := do
  let now ← time
  let s ← get
  if inspectInterval < now - s.lastRefreshTime then refresh

def add [Numpy] (blockId : BlockId) (contentHash : PrefixHash) (numHashedTokens : ℕ)
    (lastAccessed : Time) (cacheHint : Option CacheHint) : Method LRUMLEvictor Unit := do
  let s ← get
  let cacheHint ← bindSchedulerPolicy s.scheduler cacheHint
  modify (prepare blockId contentHash lastAccessed (getPolicy s.scheduler cacheHint))
  let score ← calcScore blockId lastAccessed cacheHint
  modify (insertBlock blockId { contentHash, numHashedTokens, lastAccessed, cacheHint, score })
  recordLastAccess cacheHint lastAccessed
  refreshIfDue

/-- What `update` changes besides the index, before it scores the block. -/
def touch (blockId : BlockId) (policy : Policy) : Method LRUMLEvictor Unit :=
  if policy = .rrip then
    modify fun s => { s with rripValues := s.rripValues.insert blockId rripHitRrpv }
  else if policy = .pdp then pdpProtectBlock blockId true
  else pure ()

def update [Numpy] (blockId : BlockId) (lastAccessed : Time) (cacheHint : Option CacheHint) :
    Method LRUMLEvictor Unit := do
  let s ← get
  match s.freeTable.get? blockId with
  | none => throw (.valueError "Attempting to update block that's not in the evictor")
  | some block =>
    let cacheHint ← bindSchedulerPolicy s.scheduler cacheHint
    removeFromSortedDict blockId
    touch blockId (getPolicy s.scheduler cacheHint)
    let score ← calcScore blockId lastAccessed cacheHint
    modify (insertBlock blockId { block with lastAccessed, cacheHint, score })
    recordLastAccess cacheHint lastAccessed

/-- What `remove` changes for the block's policy. -/
def release (blockId : BlockId) (contentHash : PrefixHash) (policy : Policy) (s : LRUMLEvictor) :
    LRUMLEvictor :=
  if policy = .rrip then { s with rripValues := s.rripValues.insert blockId rripHitRrpv }
  else if policy = .pdp then { s with
    pdpContentHashToBlockId := forget s.pdpContentHashToBlockId contentHash blockId
    pdpProtectedUntilEpoch := s.pdpProtectedUntilEpoch.erase blockId
    pdpLastAccessEpoch := s.pdpLastAccessEpoch.erase blockId
    pdpReused := s.pdpReused.erase blockId }
  else s

def remove (blockId : BlockId) : Method LRUMLEvictor Unit := do
  let s ← get
  match s.freeTable.get? blockId with
  | none => throw (.valueError "Attempting to remove block that's not in the evictor")
  | some block =>
    modify (release blockId block.contentHash (getPolicy s.scheduler block.cacheHint))
    removeFromSortedDict blockId
    modify fun s => { s with freeTable := s.freeTable.erase blockId }

end LRUMLEvictor
end Vllm.Evictor
