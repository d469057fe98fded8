import VllmProofs.V1.SchedulerInvariant

/-!
The other calls of the scheduler keep what `schedule` keeps: adding, finishing, updating.
-/

namespace Vllm.V1
open Exec

namespace Scheduler

variable {s t : Scheduler} {ref : RequestRef} {id : RequestId}

/-- A request leaves its queue for good, and its blocks are freed. -/
theorem Serving.remove {freed : KVCacheManager} (serving : s.Serving) (ref : RequestRef) (request : Request)
    (perm : (ref :: (t.running ++ t.waiting)).Perm (s.running ++ s.waiting))
    (requests : t.requests = s.requests.erase (s.objects ref).requestId) (numObjects : t.numObjects = s.numObjects)
    (maxModelLen : t.maxModelLen = s.maxModelLen) (blockSize : t.blockSize = s.blockSize)
    (objects : ∀ ref' ≠ ref, t.objects ref' = s.objects ref')
    (running : ∀ ref' ∈ t.running, ref' ∈ s.running) (waiting : ∀ ref' ∈ t.waiting, ref' ∈ s.waiting)
    (named : request.requestId = (s.objects ref).requestId)
    (free : KVCacheManager.free request s.kvCacheManager = .ok () freed)
    (drop : KVCacheManager.freeBlockHashes request freed = .ok () t.kvCacheManager) : t.Serving := by
  obtain ⟨queued, holding⟩ := serving
  have sound := holding.sound
  have done := KVCacheManager.free_ok sound free
  obtain ⟨unchanged, -⟩ := KVCacheManager.freeBlockHashes_ok drop
  have same : t.kvCacheManager.Sound ∧ KVCacheManager.SameConfig freed t.kvCacheManager ∧
      t.kvCacheManager.blocksOf = freed.blocksOf ∧ t.kvCacheManager.numCachedBlock = freed.numCachedBlock := by
    generalize t.kvCacheManager.reqToBlockHashes = hashes at unchanged
    rw [unchanged]
    exact ⟨⟨done.sound.pool, done.sound.caching⟩, ⟨rfl, rfl, rfl, rfl, rfl⟩, rfl, rfl⟩
  obtain ⟨sound', config, blocks, counts⟩ := same
  have nodup := perm.nodup_iff.mpr queued.nodup
  rw [List.nodup_cons] at nodup
  have apart : ∀ ref' ∈ t.running, ref' ≠ ref := by
    rintro ref' member rfl
    exact nodup.1 (List.mem_append_left _ member)
  constructor
  · exact queued.remove ref perm requests numObjects maxModelLen objects running waiting
  · apply holding.change
    · exact sound'
    · exact done.config.trans config
    · exact blockSize
    · exact maxModelLen
    · rw [blocks, counts]
      apply idle_free sound free
      intro id other absent
      apply holding.idle id
      intro member
      obtain ⟨ref', there, rfl⟩ := List.mem_map.mp member
      have different : ref' ≠ ref := by
        rintro rfl
        exact other named.symm
      apply absent
      have still : ref' ∈ t.running := by
        have queue := perm.mem_iff.mpr (List.mem_append_left s.waiting there)
        rcases List.mem_append.mp ((List.mem_cons.mp queue).resolve_left different) with runs | waits
        · exact runs
        · exact absurd (waiting ref' waits) (List.disjoint_of_nodup_append queued.nodup there)
      refine List.mem_map.mpr ⟨ref', still, ?_⟩
      rw [objects ref' different]

variable {finishedStatus : RequestStatus}

theorem Serving.finishRequest {u : Unit} (serving : s.Serving)
    (call : finishRequest finishedStatus id s = .ok u t) : t.Serving := by
  rcases finishRequest_ok call with ⟨-, rfl⟩ | ⟨ref, dequeued, found, left, freed⟩
  · exact serving
  · obtain ⟨-, -, freed', manager, free, drop, rfl⟩ := freed
    rw [setRequest_objects, Function.update_self] at free drop
    cases left with
    | running status member =>
      apply serving.remove ref ((s.objects ref).setStatus finishedStatus)
      · simpa using ((List.perm_cons_erase member).append_right s.waiting).symm
      · simp
      · simp
      · simp
      · simp
      · intro ref' other
        simp [Function.update_of_ne other]
      · intro ref' there
        simp only [released_running, setKVCacheManager_running, setRequest_running, setScheduledReqIds_running,
          setRunning_running] at there
        exact List.mem_of_mem_erase there
      · intro ref' there
        simpa using there
      · rfl
      · simpa using free
      · simpa using drop
    | waiting status member =>
      apply serving.remove ref ((s.objects ref).setStatus finishedStatus)
      · simpa using List.perm_middle.symm.trans ((List.perm_cons_erase member).append_left s.running).symm
      · simp
      · simp
      · simp
      · simp
      · intro ref' other
        simp [Function.update_of_ne other]
      · intro ref' there
        simpa using there
      · intro ref' there
        simp only [released_waiting, setKVCacheManager_waiting, setRequest_waiting, setWaiting_waiting] at there
        exact List.mem_of_mem_erase there
      · rfl
      · simpa using free
      · simpa using drop

theorem Serving.finishEach {ids : List RequestId} {u : PUnit} (serving : s.Serving)
    (call : ids.forM (Scheduler.finishRequest finishedStatus) s = .ok u t) : t.Serving := by
  induction ids generalizing s with
  | nil =>
    cases call
    exact serving
  | cons id rest ih =>
    obtain ⟨_, v, first, others⟩ := bind_ok call
    exact ih (serving.finishRequest first) others

theorem Serving.finishRequests {ids : List RequestId} {u : Unit}
    (serving : s.Serving) (call : finishRequests ids finishedStatus s = .ok u t) : t.Serving := by
  unfold Scheduler.finishRequests at call
  obtain ⟨_, _, checked, call⟩ := bind_ok call
  obtain ⟨-, rfl⟩ := check_ok checked
  exact serving.finishEach call

theorem Serving.add {request : Request} (serving : s.Serving) (unused : s.requests.get? request.requestId = none)
    (new : request.IsNew s.maxModelLen) : (s.addRequest request).Serving := by
  refine ⟨serving.queued.add unused new, ?_⟩
  apply serving.holding.same
  · rfl
  · rfl
  · rfl
  · intro id member
    obtain ⟨ref, there, rfl⟩ := List.mem_map.mp member
    have older : ref ≠ s.numObjects := by
      rintro rfl
      exact lt_irrefl _ (serving.queued.known _ (List.mem_append_left _ there)).1
    refine List.mem_map.mpr ⟨ref, there, ?_⟩
    rw [addRequest_objects, setRequest_objects, Function.update_of_ne older]

def grammarReady (ref : RequestRef) (s : Scheduler) : Scheduler :=
  s.setRequest ref { s.objects ref with grammarIsReady := true }

theorem Serving.grammarReady (serving : s.Serving) (ref : RequestRef) : (s.grammarReady ref).Serving := by
  have same : ∀ ref', ((s.grammarReady ref).objects ref').requestId = (s.objects ref').requestId :=
    requestId_update rfl rfl
  have at_ : ∀ ref', (s.grammarReady ref).objects ref' = s.objects ref' ∨
      ref' = ref ∧ (s.grammarReady ref).objects ref' = { s.objects ref with grammarIsReady := true } := by
    intro ref'
    by_cases mine : ref' = ref
    · subst mine
      exact Or.inr ⟨rfl, Function.update_self _ _ _⟩
    · exact Or.inl (Function.update_of_ne mine _ _)
  constructor
  · apply serving.queued.rearrange
    · exact List.Perm.refl _
    · rfl
    · rfl
    · exact same
    · intro ref' member
      have status := serving.queued.runs ref' member
      rcases at_ ref' with keeps | ⟨rfl, sets⟩
      · rw [keeps]
        exact status
      · rw [sets]
        exact status
    · intro ref' member
      have waits := serving.queued.waits ref' member
      rcases at_ ref' with keeps | ⟨rfl, sets⟩
      · rw [keeps]
        exact waits
      · rw [sets]
        exact ⟨waits.status, waits.numComputedTokens⟩
    · intro ref' member
      have fits := serving.queued.fits ref' member
      rcases at_ ref' with keeps | ⟨rfl, sets⟩
      · rw [keeps]
        exact fits
      · rw [sets]
        exact fits
  · apply serving.holding.same
    · rfl
    · rfl
    · rfl
    · intro id member
      rw [runningIds_of_objects same]
      exact member

theorem Serving.resetPrefixCache {done : Bool} (serving : s.Serving) (call : resetPrefixCache s = .ok done t) :
    t.Serving := by
  obtain ⟨manager, inner, rfl⟩ := zoom_ok call
  have was := KVCacheManager.resetPrefixCache_ok serving.holding.sound inner
  constructor
  · exact ⟨serving.queued.nodup, serving.queued.known, serving.queued.queued, serving.queued.runs,
      serving.queued.waits, serving.queued.fits⟩
  · apply serving.holding.change
    · exact was.sound
    · exact was.config
    · rfl
    · rfl
    · intro id absent
      rw [setKVCacheManager_kvCacheManager, KVCacheManager.blocksOf_of_reqToBlocks was.reqToBlocks, was.numCachedBlock]
      exact serving.holding.idle id absent

theorem numTokens_append {r r' : Request} {new : List TokenId} (evolves : Evolves r r')
    (outputs : r'.outputTokenIds = r.outputTokenIds ++ new) : r'.numTokens = r.numTokens + new.length := by
  unfold Request.numTokens Request.allTokenIds
  rw [evolves.promptTokenIds, outputs]
  simp [Nat.add_assoc]

variable {result : ModelRunnerOutput}

/-- The update of a request that is still in the list of running ones, between those that go on and
those to come. -/
theorem Serving.updateRequest {out : SchedulerOutput} {sent : Option EngineCoreOutput}
    {stopped : Bool} {kept rest : List RequestRef} (serving : (s.setRunning (kept ++ ref :: rest)).Serving)
    (call : updateRequest out result ref s = .ok (sent, stopped) t) :
    (t.setRunning ((if stopped then kept else kept ++ [ref]) ++ rest)).Serving := by
  have member : ref ∈ kept ++ ref :: rest := List.mem_append_right _ List.mem_cons_self
  have nodup := serving.queued.nodup
  rw [setRunning_running] at nodup
  rcases updateRequest_ok call with ⟨-, rfl, rfl⟩ | ⟨n, gen, new, request, -, -, updated⟩
  · simpa using serving
  · rcases updated.state with ⟨rfl, rfl⟩ | ⟨rfl, v, ⟨-, -, freed, manager, free, drop, rfl⟩, rfl⟩
    · have fits := serving.queued.fits ref (List.mem_append_left _ member)
      constructor
      · apply serving.queued.update ref request
        · simp
        · simp
        · simp
        · simp
        · rfl
        · simpa using updated.evolves.requestId
        · intro ref' there
          by_cases same : ref' = ref
          · refine Or.inl ⟨same, ?_⟩
            rw [(updated.goes rfl).1]
            exact serving.queued.runs ref member
          · refine Or.inr ⟨same, ?_⟩
            simpa using there
        · intro ref' there
          refine Or.inr ⟨?_, there⟩
          rintro rfl
          exact List.disjoint_of_nodup_append nodup member there
        · intro _
          rw [Request.Fits, numTokens_append updated.evolves updated.outputTokenIds]
          refine ⟨Nat.lt_add_right _ fits.1, ?_⟩
          by_cases none : new = []
          · rw [none]
            exact fits.2
          · have short := (updated.goes rfl).2 none
            rw [numTokens_append updated.evolves updated.outputTokenIds] at short
            exact short
      · apply serving.holding.same
        · simp
        · simp
        · simp
        · intro id there
          rw [runningIds_of_objects (s := s.setRunning (kept ++ ref :: rest))]
          · simpa [runningIds] using there
          · apply requestId_update
            · rfl
            · simpa using updated.evolves.requestId
    · rw [setRequest_objects, Function.update_self] at free drop
      rw [if_pos rfl]
      apply serving.remove ref request
      · simp only [setRunning_running, setRunning_waiting, setScheduledReqIds_waiting, released_waiting,
          setKVCacheManager_waiting, setRequest_waiting, freeComputedInputs_waiting]
        exact (List.perm_middle.append_right s.waiting).symm
      · simp [updated.evolves.requestId]
      · simp
      · simp
      · simp
      · intro ref' other
        simp [Function.update_of_ne other]
      · intro ref' there
        rcases List.mem_append.mp there with before | after
        · exact List.mem_append_left _ before
        · exact List.mem_append_right _ (List.mem_cons_of_mem _ after)
      · intro ref' there
        simpa using there
      · simpa using updated.evolves.requestId
      · simpa using free
      · simpa using drop

theorem Serving.updateFromOutput {out : SchedulerOutput}
    {outputs : List EngineCoreOutput} (serving : s.Serving)
    (call : updateFromOutput out result s = .ok outputs t) : t.Serving := by
  unfold Scheduler.updateFromOutput at call
  rw [get_bind] at call
  obtain ⟨found, v, updates, call⟩ := bind_ok call
  obtain ⟨sent, newRunning⟩ := found
  cases call
  have start : (s.setRunning ([] ++ s.running)).Serving := serving
  have after := updateEach_invariant (I := fun kept rest v => (v.setRunning (kept ++ rest)).Serving)
    (fun kept ref rest s t sent stopped before updated => before.updateRequest updated) start updates
  rw [List.append_nil] at after
  exact after

theorem serving_init (config : SchedulerConfig) : (init config).Serving := by
  constructor
  · exact ⟨List.nodup_nil, nofun, nofun, nofun, nofun, nofun⟩
  · exact ⟨KVCacheManager.init_sound config.someBlocks _ _ _ _, rfl, config.blocksHaveSlots, rfl,
      fun _ _ => ⟨rfl, rfl⟩⟩

/-- A call of the scheduler other than `schedule` that returns, or the grammar of a request gets compiled. -/
inductive Between (s : Scheduler) : Scheduler → Prop
  | add {request : Request} (unused : s.requests.get? request.requestId = none)
      (new : request.IsNew s.maxModelLen) : Between s (s.addRequest request)
  | finish {ids : List RequestId} {finishedStatus : RequestStatus} {u : Unit} {t : Scheduler}
      (call : finishRequests ids finishedStatus s = .ok u t) : Between s t
  | grammarReady (ref : RequestRef) : Between s (s.grammarReady ref)
  | resetPrefixCache {done : Bool} {t : Scheduler} (call : resetPrefixCache s = .ok done t) : Between s t
  | update {out : SchedulerOutput} {result : ModelRunnerOutput} {outputs : List EngineCoreOutput} {t : Scheduler}
      (call : updateFromOutput out result s = .ok outputs t) : Between s t

theorem Serving.between (serving : s.Serving) (between : Between s t) : t.Serving := by
  cases between with
  | add unused new => exact serving.add unused new
  | finish call => exact serving.finishRequests call
  | grammarReady ref => exact serving.grammarReady ref
  | resetPrefixCache call => exact serving.resetPrefixCache call
  | update call => exact serving.updateFromOutput call

end Scheduler
end Vllm.V1
