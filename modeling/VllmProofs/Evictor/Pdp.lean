import VllmProofs.Evictor.ProtectingDistance

/-!
`PDPEvictor`: every lookup advances a request epoch, an observed or updated block is protected
for the protecting distance, and `evict` prefers a block whose protection has run out.
-/

namespace Vllm.Evictor

structure PDPBlockMetaData extends BlockMetaData where
  firstAccessEpoch : ℤ
  lastAccessEpoch : ℤ
  protectedUntilEpoch : ℤ
  reused : Bool
  deriving DecidableEq, Repr

/-- What `_protect_block` does to the block's record. -/
def PDPBlockMetaData.protect (block : PDPBlockMetaData) (requestEpoch protectingDistance : ℤ)
    (reused : Bool) : PDPBlockMetaData :=
  { block with
    lastAccessEpoch := requestEpoch
    protectedUntilEpoch := requestEpoch + protectingDistance
    reused := block.reused || reused }

structure PDPEvictor where
  freeTable : Dict BlockId PDPBlockMetaData := ∅
  contentHashToBlockId : Dict PrefixHash BlockId := ∅
  lastSeenEpoch : Dict PrefixHash ℤ := ∅
  reuseDistanceCounts : Dict ℤ ℤ := ∅
  settings : PdpSettings
  positive : settings.Positive
  protectingDistance : ℤ
  capacity : ℤ := 0
  requestEpoch : ℤ := 0
  totalObservedAccesses : ℤ := 0

/-- The order of `_victim_key`: expired blocks first. -/
abbrev PDPVictimKey := (ℤ ×ₗ Time ×ₗ BlockId) ⊕ₗ (ℕ ×ₗ ℤ ×ₗ ℤ ×ₗ Time ×ₗ BlockId)

/-- `mapping.pop(key, None)` if the key is mapped to this value. -/
def forget (mapping : Dict PrefixHash BlockId) (contentHash : PrefixHash) (blockId : BlockId) :
    Dict PrefixHash BlockId :=
  if mapping.get? contentHash = some blockId then mapping.erase contentHash else mapping

namespace PDPEvictor

def init (config : PdpSettings) : PDPEvictor where
  settings := config.clamp
  positive := config.clamp_positive
  protectingDistance := config.clamp.initialPd

def contains (s : PDPEvictor) (blockId : BlockId) : Bool := s.freeTable.contains blockId

def numBlocks (s : PDPEvictor) : ℕ := s.freeTable.size

def setCapacity (capacity : ℤ) : Method PDPEvictor Unit := modify fun s => { s with capacity }

def bucketDistance (distance : ℤ) : Method PDPEvictor ℤ := do
  let s ← get
  bucketed s.settings distance

/-- The table after an access to a block, if it is resident. -/
def protectedNow (blockId : BlockId) (reused : Bool) (s : PDPEvictor) : PDPEvictor :=
  match s.freeTable.get? blockId with
  | none => s
  | some block =>
    let block := block.protect s.requestEpoch s.protectingDistance reused
    { s with freeTable := s.freeTable.insert blockId block }

def protectBlock (blockId : BlockId) (reused : Bool) : Method PDPEvictor Unit :=
  modify (protectedNow blockId reused)

def forgetHashMapping (contentHash : PrefixHash) (blockId : BlockId) : Method PDPEvictor Unit :=
  modify fun s =>
    { s with contentHashToBlockId := forget s.contentHashToBlockId contentHash blockId }

/-- `bool(real_hits[index]) if real_hits else False` -/
def realHitAt (realHits : Option (List Bool)) (index : ℕ) : Method PDPEvictor Bool :=
  match realHits with
  | none | some [] => return false
  | some hits =>
    match hits[index]? with
    | some hit => return hit
    | none => throw .indexError

/-- The reuse distance of an access to a hash seen before. -/
def recordReuse (contentHash : PrefixHash) : Method PDPEvictor Unit := do
  let s ← get
  match s.lastSeenEpoch.get? contentHash with
  | none => pure ()
  | some previous =>
    let distance ← bucketDistance (s.requestEpoch - previous)
    modify fun s => { s with reuseDistanceCounts := countReuse s.reuseDistanceCounts distance }

def recordSeen (contentHash : PrefixHash) : Method PDPEvictor Unit :=
  modify fun s => { s with lastSeenEpoch := s.lastSeenEpoch.insert contentHash s.requestEpoch }

/-- The protection of the block that holds a hash. -/
def protectHolder (contentHash : PrefixHash) (reused : Bool) : Method PDPEvictor Unit := do
  let s ← get
  match s.contentHashToBlockId.get? contentHash with
  | none => pure ()
  | some blockId => protectBlock blockId reused

/-- The part of the loop body of `observe_cache_accesses` about one hash. -/
def observeHash (contentHash : PrefixHash) (realHit : Bool) : Method PDPEvictor Unit := do
  let s ← get
  let previousEpoch := s.lastSeenEpoch.get? contentHash
  recordReuse contentHash
  recordSeen contentHash
  protectHolder contentHash (realHit || previousEpoch.isSome)

/-- The loop of `observe_cache_accesses`, from position `index` on. -/
def observeEach (realHits : Option (List Bool)) :
    ℕ → List PrefixHash → List PrefixHash → Method PDPEvictor Unit
  | _, _, [] => pure ()
  | index, seenInRequest, contentHash :: rest =>
    if contentHash ∈ seenInRequest then observeEach realHits (index + 1) seenInRequest rest
    else do
      modify fun s => { s with totalObservedAccesses := s.totalObservedAccesses + 1 }
      let realHit ← realHitAt realHits index
      observeHash contentHash realHit
      observeEach realHits (index + 1) (contentHash :: seenInRequest) rest

def recomputeProtectingDistance : Method PDPEvictor Unit := do
  let s ← get
  let protectingDistance ← bestProtectingDistance s.settings s.reuseDistanceCounts
    s.totalObservedAccesses s.protectingDistance
  set { s with protectingDistance }

/-- The last two lines of `observe_cache_accesses`. -/
def recomputeIfDue : Method PDPEvictor Unit := do
  let s ← get
  if ← divides s.totalObservedAccesses s.settings.recomputeInterval then
    recomputeProtectingDistance

def observeCacheAccesses (blockHashes : List PrefixHash) (_cacheHint : Option CacheHint)
    (realHits : Option (List Bool)) : Method PDPEvictor Unit :=
  match blockHashes with
  | [] => pure ()
  | _ => do
    modify fun s => { s with requestEpoch := s.requestEpoch + 1 }
    observeEach realHits 0 [] blockHashes
    recomputeIfDue

def observeCacheAccess (contentHash : PrefixHash) (cacheHint : Option CacheHint)
    (realHit : Option Bool) : Method PDPEvictor Unit :=
  observeCacheAccesses [contentHash] cacheHint (realHit.map fun hit => [hit])

def victimKey (requestEpoch : ℤ) (blockId : BlockId) (block : PDPBlockMetaData) : PDPVictimKey :=
  if block.protectedUntilEpoch ≤ requestEpoch then
    toLex (.inl (toLex (block.lastAccessEpoch, toLex (block.lastAccessed, blockId))))
  else
    let remaining := max 0 (block.protectedUntilEpoch - requestEpoch)
    toLex (.inr (toLex (block.reused.toNat, toLex (-remaining,
      toLex (-block.lastAccessEpoch, toLex (-block.lastAccessed, blockId))))))

/-- `min(self.free_table.items(), key=...)` -/
def victim (s : PDPEvictor) : Option (BlockId × PDPBlockMetaData) :=
  s.freeTable.items.argmin fun item => victimKey s.requestEpoch item.1 item.2

def evict : Method PDPEvictor (BlockId × PrefixHash) := do
  let s ← get
  match victim s with
  | none => throw noUsableMemory
  | some (blockId, block) =>
    set { s with freeTable := s.freeTable.erase blockId }
    forgetHashMapping block.contentHash blockId
    return (blockId, block.contentHash)

/-- Before a block is added again, its old hash stops leading to it. -/
def forgetPrevious (blockId : BlockId) : Method PDPEvictor Unit := do
  let s ← get
  match s.freeTable.get? blockId with
  | none => pure ()
  | some previousBlock => forgetHashMapping previousBlock.contentHash blockId

def add (blockId : BlockId) (contentHash : PrefixHash) (numHashedTokens : ℕ) (lastAccessed : Time)
    (cacheHint : Option CacheHint) : Method PDPEvictor Unit := do
  forgetPrevious blockId
  let s ← get
  let lastAccessEpoch := (s.lastSeenEpoch.get? contentHash).getD s.requestEpoch
  set { s with
    freeTable := s.freeTable.insert blockId {
      contentHash, numHashedTokens, lastAccessed, cacheHint
      firstAccessEpoch := lastAccessEpoch
      lastAccessEpoch
      protectedUntilEpoch := s.requestEpoch + s.protectingDistance
      reused := s.lastSeenEpoch.contains contentHash }
    contentHashToBlockId := s.contentHashToBlockId.insert contentHash blockId }

def update (blockId : BlockId) (lastAccessed : Time) (cacheHint : Option CacheHint) :
    Method PDPEvictor Unit := do
  let s ← get
  match s.freeTable.get? blockId with
  | none => throw (.valueError "Attempting to update block that's not in the evictor")
  | some block =>
    set { s with freeTable := s.freeTable.insert blockId { block with lastAccessed, cacheHint } }
    protectBlock blockId true

def remove (blockId : BlockId) : Method PDPEvictor Unit := do
  let s ← get
  match s.freeTable.get? blockId with
  | none => throw (.valueError "Attempting to remove block that's not in the evictor")
  | some block =>
    set { s with freeTable := s.freeTable.erase blockId }
    forgetHashMapping block.contentHash blockId

end PDPEvictor
end Vllm.Evictor
