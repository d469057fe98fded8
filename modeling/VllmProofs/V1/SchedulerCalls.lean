import VllmProofs.V1.Scheduler

/-!
What the calls between two schedules do to the scheduler: freeing, finishing, and the update of a
request from the output of a step.
-/

namespace Vllm.V1
open Exec

/-! ### Requests over time -/

structure Evolves (r r' : Request) : Prop where
  requestId : r'.requestId = r.requestId
  samplingParams : r'.samplingParams = r.samplingParams
  eosTokenId : r'.eosTokenId = r.eosTokenId
  loraRequest : r'.loraRequest = r.loraRequest
  promptTokenIds : r'.promptTokenIds = r.promptTokenIds
  outputTokenIds : r.outputTokenIds <+: r'.outputTokenIds
  mmPositions : r'.mmPositions = r.mmPositions
  mmInputs : r'.mmInputs = r.mmInputs
  mmHashes : r'.mmHashes = r.mmHashes

namespace Evolves

variable {r r' r'' : Request}

theorem of_same (requestId : r'.requestId = r.requestId) (samplingParams : r'.samplingParams = r.samplingParams)
    (eosTokenId : r'.eosTokenId = r.eosTokenId) (loraRequest : r'.loraRequest = r.loraRequest)
    (promptTokenIds : r'.promptTokenIds = r.promptTokenIds) (outputTokenIds : r'.outputTokenIds = r.outputTokenIds)
    (mmPositions : r'.mmPositions = r.mmPositions) (mmInputs : r'.mmInputs = r.mmInputs)
    (mmHashes : r'.mmHashes = r.mmHashes) : Evolves r r' :=
  ⟨requestId, samplingParams, eosTokenId, loraRequest, promptTokenIds, outputTokenIds ▸ List.prefix_refl _,
    mmPositions, mmInputs, mmHashes⟩

theorem refl (r : Request) : Evolves r r := of_same rfl rfl rfl rfl rfl rfl rfl rfl rfl

theorem trans (first : Evolves r r') (second : Evolves r' r'') : Evolves r r'' where
  requestId := second.requestId.trans first.requestId
  samplingParams := second.samplingParams.trans first.samplingParams
  eosTokenId := second.eosTokenId.trans first.eosTokenId
  loraRequest := second.loraRequest.trans first.loraRequest
  promptTokenIds := second.promptTokenIds.trans first.promptTokenIds
  outputTokenIds := first.outputTokenIds.trans second.outputTokenIds
  mmPositions := second.mmPositions.trans first.mmPositions
  mmInputs := second.mmInputs.trans first.mmInputs
  mmHashes := second.mmHashes.trans first.mmHashes

theorem allTokenIds (evolves : Evolves r r') : r.allTokenIds <+: r'.allTokenIds := by
  unfold Request.allTokenIds
  rw [evolves.promptTokenIds]
  exact (List.prefix_append_right_inj _).mpr evolves.outputTokenIds

theorem getNumEncoderTokens (evolves : Evolves r r') : r'.getNumEncoderTokens = r.getNumEncoderTokens := by
  unfold Request.getNumEncoderTokens
  rw [evolves.mmPositions]

end Evolves

namespace Request

variable {r r' : Request} {maxModelLen : ℕ} {tokens new : List TokenId} {stopped : Bool}

theorem checkStop_some (h : r.checkStop maxModelLen = some r') :
    Evolves r r' ∧ r'.isFinished ∧ r'.outputTokenIds = r.outputTokenIds ∧
      r'.numComputedTokens = r.numComputedTokens ∧ r'.specTokenIds = r.specTokenIds := by
  unfold checkStop at h
  split at h
  · cases h
    exact ⟨Evolves.of_same rfl rfl rfl rfl rfl rfl rfl rfl rfl, rfl, rfl, rfl, rfl⟩
  · split at h
    · cases h
      exact ⟨Evolves.of_same rfl rfl rfl rfl rfl rfl rfl rfl rfl, rfl, rfl, rfl, rfl⟩
    · split at h
      · cases h
      · split at h
        · cases h
          exact ⟨Evolves.of_same rfl rfl rfl rfl rfl rfl rfl rfl rfl, rfl, rfl, rfl, rfl⟩
        · cases h

theorem checkStop_none (h : r.checkStop maxModelLen = none) : r.numTokens < maxModelLen := by
  unfold checkStop at h
  split at h
  · cases h
  · rename_i goes
    exact Nat.lt_of_not_le fun le => goes (Or.inl le)

structure Generated (maxModelLen : ℕ) (tokens new : List TokenId) (stopped : Bool) (r r' : Request) : Prop where
  evolves : Evolves r r'
  outputTokenIds : r'.outputTokenIds = r.outputTokenIds ++ new
  numComputedTokens : r'.numComputedTokens = r.numComputedTokens
  specTokenIds : r'.specTokenIds = r.specTokenIds
  appended : new <+: tokens
  goes : stopped = false → new = tokens ∧ r'.status = r.status ∧ (tokens ≠ [] → r'.numTokens < maxModelLen)
  stops : stopped = true → r'.isFinished ∧ new ≠ []

theorem generate_ok (h : r.generate maxModelLen tokens = (r', new, stopped)) :
    Generated maxModelLen tokens new stopped r r' := by
  induction tokens generalizing r new with
  | nil =>
    cases h
    exact ⟨Evolves.refl _, (List.append_nil _).symm, rfl, rfl, List.prefix_refl _,
      fun _ => ⟨rfl, rfl, fun some => absurd rfl some⟩, fun off => absurd off Bool.false_ne_true⟩
  | cons token rest ih =>
    have grown : Evolves r (r.appendOutputTokenIds [token]) :=
      ⟨rfl, rfl, rfl, rfl, rfl, List.prefix_append _ _, rfl, rfl, rfl⟩
    unfold generate at h
    dsimp only at h
    cases check : (r.appendOutputTokenIds [token]).checkStop maxModelLen with
    | some r₁ =>
      rw [check] at h
      cases h
      obtain ⟨evolves, finished, output, computed, spec⟩ := checkStop_some check
      exact ⟨grown.trans evolves, output, computed, spec, List.prefix_append [token] rest,
        fun on => absurd on.symm Bool.false_ne_true, fun _ => ⟨finished, List.cons_ne_nil _ _⟩⟩
    | none =>
      rw [check] at h
      cases later : (r.appendOutputTokenIds [token]).generate maxModelLen rest with
      | mk r₁ result =>
        obtain ⟨new₁, stopped₁⟩ := result
        rw [later] at h
        cases h
        obtain ⟨evolves, output, computed, spec, appended, goes, stops⟩ := ih later
        refine ⟨grown.trans evolves, ?_, computed, spec, ?_, ?_, ?_⟩
        · rw [output, appendOutputTokenIds]
          simp
        · exact (List.prefix_append_right_inj [token]).mpr appended
        · intro on
          obtain ⟨all, status, short⟩ := goes on
          refine ⟨by rw [all], status, fun _ => ?_⟩
          cases rest with
          | nil =>
            cases later
            exact checkStop_none check
          | cons _ _ => exact short (List.cons_ne_nil _ _)
        · intro off
          exact ⟨(stops off).1, List.cons_ne_nil _ _⟩

end Request

namespace Scheduler

variable {s t : Scheduler} {ref : RequestRef} {id : RequestId} {u : Unit}

/-! ### `finish_requests` -/

structure FreedRequest (ref : RequestRef) (s t : Scheduler) : Prop where
  finished : (s.objects ref).isFinished
  known : ∃ ref', s.requests.get? (s.objects ref).requestId = some ref'
  state : ∃ freed manager, KVCacheManager.free (s.objects ref) s.kvCacheManager = .ok () freed ∧
    KVCacheManager.freeBlockHashes (s.objects ref) freed = .ok () manager ∧
    t = (s.setKVCacheManager manager).released ref

theorem freeRequest_ok (call : freeRequest ref s = .ok u t) : FreedRequest ref s t := by
  unfold freeRequest at call
  rw [get_bind] at call
  obtain ⟨_, _, checked, call⟩ := bind_ok call
  obtain ⟨finished, rfl⟩ := check_ok checked
  obtain ⟨_, _, freed, call⟩ := bind_ok call
  obtain ⟨manager₁, inner₁, rfl⟩ := zoom_ok freed
  obtain ⟨_, _, dropped, call⟩ := bind_ok call
  obtain ⟨manager₂, inner₂, rfl⟩ := zoom_ok dropped
  rw [get_bind] at call
  obtain ⟨ref', _, got, call⟩ := bind_ok call
  obtain ⟨found, rfl⟩ := getItem_ok got
  cases call
  exact ⟨finished, ⟨ref', found⟩, manager₁, manager₂, inner₁, inner₂, rfl⟩

/-- A request has left the queue it was in. -/
inductive Dequeued (ref : RequestRef) (s : Scheduler) : Scheduler → Prop
  | running (status : (s.objects ref).status = .running) (member : ref ∈ s.running) :
      Dequeued ref s ((s.setRunning (s.running.erase ref)).setScheduledReqIds
        (s.scheduledReqIds.erase (s.objects ref).requestId))
  | waiting (status : (s.objects ref).status ≠ .running) (member : ref ∈ s.waiting) :
      Dequeued ref s (s.setWaiting (s.waiting.erase ref))

theorem dequeue_ok (call : dequeue ref s = .ok u t) : Dequeued ref s t := by
  unfold dequeue at call
  rw [get_bind] at call
  split at call
  · rename_i status
    split at call
    · rename_i member
      cases call
      exact .running status member
    · cases call
  · rename_i status
    split at call
    · rename_i member
      cases call
      exact .waiting status member
    · cases call

theorem finishRequest_ok {finishedStatus : RequestStatus} (call : finishRequest finishedStatus id s = .ok u t) :
    (s.requests.get? id = none ∧ t = s) ∨ ∃ ref dequeued, s.requests.get? id = some ref ∧
      Dequeued ref s dequeued ∧ FreedRequest ref
        (dequeued.setRequest ref ((dequeued.objects ref).setStatus finishedStatus)) t := by
  unfold finishRequest at call
  rw [get_bind] at call
  cases found : s.requests.get? id with
  | none =>
    rw [found] at call
    cases call
    exact Or.inl ⟨rfl, rfl⟩
  | some ref =>
    rw [found] at call
    dsimp only at call
    obtain ⟨_, v, left, call⟩ := bind_ok call
    rw [modify_bind] at call
    exact Or.inr ⟨ref, v, rfl, dequeue_ok left, freeRequest_ok call⟩

/-! ### `update_from_output` -/

def computedAfter (request : Request) (numTokensScheduled : ℕ) (drafts : Option (List TokenId))
    (generated : List TokenId) : ℕ :=
  match drafts with
  | none => request.numComputedTokens + numTokensScheduled
  | some drafts => request.numComputedTokens + numTokensScheduled + generated.length - (drafts.length + 1)

def advanced (request : Request) (n : ℕ) (drafts : Option (List TokenId)) (gen : List TokenId) : Request :=
  { request with numComputedTokens := computedAfter request n drafts gen }

variable {request : Request}

theorem advanceComputed_ok {request' : Request} {n : ℕ} {drafts : Option (List TokenId)}
    {gen : List TokenId} (call : advanceComputed request n drafts gen s = .ok request' t) :
    s = t ∧ request' = advanced request n drafts gen ∧
      (drafts = none → computedAfter request n drafts gen ≤ request.numTokens) := by
  unfold advanceComputed at call
  cases drafts with
  | none =>
    dsimp only at call
    obtain ⟨_, _, checked, call⟩ := bind_ok call
    obtain ⟨within, rfl⟩ := check_ok checked
    cases call
    exact ⟨rfl, rfl, fun _ => within⟩
  | some drafts =>
    cases call
    exact ⟨rfl, rfl, nofun⟩

theorem newSpecTokenIds_ok {drafted : Request} {specs : Option (List (List TokenId))} {i : ℕ}
    (call : newSpecTokenIds request specs i s = .ok drafted t) :
    s = t ∧ Evolves request drafted ∧ drafted.outputTokenIds = request.outputTokenIds ∧
      drafted.numComputedTokens = request.numComputedTokens ∧ drafted.status = request.status ∧
      ((specs = none ∧ drafted.specTokenIds = request.specTokenIds) ∨
        ∃ all, specs = some all ∧ all[i]? = some drafted.specTokenIds) := by
  unfold newSpecTokenIds at call
  cases specs with
  | none =>
    cases call
    exact ⟨rfl, Evolves.refl _, rfl, rfl, rfl, Or.inl ⟨rfl, rfl⟩⟩
  | some all =>
    obtain ⟨drafts, _, got, call⟩ := bind_ok call
    obtain ⟨found, rfl⟩ := getItem_ok got
    cases call
    exact ⟨rfl, Evolves.of_same rfl rfl rfl rfl rfl rfl rfl rfl rfl, rfl, rfl, rfl, Or.inr ⟨all, rfl, found⟩⟩

/-- The inputs are freed as their positions and the progress of the request say, whatever else it is. -/
theorem freeComputedInputs_congr {r r' : Request} (requestId : r'.requestId = r.requestId)
    (mmPositions : r'.mmPositions = r.mmPositions) (computed : r'.numComputedTokens = r.numComputedTokens)
    (s : Scheduler) : s.freeComputedInputs r' = s.freeComputedInputs r := by
  have each : EncoderCacheManager.freeEncoderInput r' = EncoderCacheManager.freeEncoderInput r := by
    funext cache i
    unfold EncoderCacheManager.freeEncoderInput Request.getNumEncoderTokens
    rw [requestId, mmPositions]
  unfold freeComputedInputs EncoderCacheManager.freeInputs
  simp only [requestId, mmPositions, computed, each]

structure Updated (out : SchedulerOutput) (result : ModelRunnerOutput) (ref : RequestRef) (n : ℕ)
    (gen new : List TokenId) (request : Request) (stopped : Bool) (s t : Scheduler) : Prop where
  answer : ∃ i, result.reqIdToIndex.get? (s.objects ref).requestId = some i ∧
    result.sampledTokenIds[i]? = some gen ∧
    ((result.specTokenIds = none ∧ request.specTokenIds = (s.objects ref).specTokenIds) ∨
      ∃ all, result.specTokenIds = some all ∧ all[i]? = some request.specTokenIds)
  evolves : Evolves (s.objects ref) request
  computed : request.numComputedTokens =
    computedAfter (s.objects ref) n (out.scheduledSpecDecodeTokens.get? (s.objects ref).requestId) gen
  within : out.scheduledSpecDecodeTokens.get? (s.objects ref).requestId = none →
    request.numComputedTokens ≤ (s.objects ref).numTokens
  outputTokenIds : request.outputTokenIds = (s.objects ref).outputTokenIds ++ new
  silent : request.numComputedTokens < (s.objects ref).numTokens → new = [] ∧ stopped = false
  spoken : (s.objects ref).numTokens ≤ request.numComputedTokens → new <+: gen ∧ (stopped = false → new = gen)
  goes : stopped = false → request.status = (s.objects ref).status ∧
    (new ≠ [] → request.numTokens < s.maxModelLen)
  stops : stopped = true → request.isFinished ∧ new ≠ []
  scheduled : (s.objects ref).requestId ∈ s.scheduledReqIds
  state : (stopped = false ∧ t = ((s.freeComputedInputs request).setRequest ref request).setScheduledReqIds
      (s.scheduledReqIds.erase (s.objects ref).requestId)) ∨
    (stopped = true ∧ ∃ v, FreedRequest ref ((s.freeComputedInputs request).setRequest ref request) v ∧
      t = v.setScheduledReqIds (s.scheduledReqIds.erase (s.objects ref).requestId))

theorem unschedule_ok (call : unschedule id s = .ok u t) :
    id ∈ s.scheduledReqIds ∧ t = s.setScheduledReqIds (s.scheduledReqIds.erase id) := by
  unfold unschedule at call
  rw [get_bind] at call
  split at call
  · rename_i member
    cases call
    exact ⟨member, rfl⟩
  · cases call

variable {stopped : Bool}

theorem generated_ok {maxModelLen : ℕ} {drafted : Request} {gen new : List TokenId}
    (call : generated maxModelLen drafted gen = (request, new, stopped)) :
    Request.Generated maxModelLen new new stopped drafted request ∧
      (drafted.numComputedTokens < drafted.numTokens → new = [] ∧ stopped = false) ∧
      (drafted.numTokens ≤ drafted.numComputedTokens → new <+: gen ∧ (stopped = false → new = gen)) := by
  unfold generated at call
  split at call
  · rename_i caught
    have made := Request.generate_ok call
    refine ⟨{ made with appended := List.prefix_refl _, goes := ?_ }, fun less => by omega,
      fun _ => ⟨made.appended, fun on => (made.goes on).1⟩⟩
    intro on
    obtain ⟨all, status, short⟩ := made.goes on
    exact ⟨rfl, status, fun some => short (all ▸ some)⟩
  · rename_i behind
    cases call
    exact ⟨⟨Evolves.refl _, (List.append_nil _).symm, rfl, rfl, List.prefix_refl _, fun _ => ⟨rfl, rfl, nofun⟩, nofun⟩,
      fun _ => ⟨rfl, rfl⟩, fun caught => absurd caught behind⟩

variable {out : SchedulerOutput} {result : ModelRunnerOutput} {sent : Option EngineCoreOutput}

theorem updateScheduled_ok {n : ℕ}
    (call : updateScheduled out result ref n s = .ok (sent, stopped) t) :
    ∃ gen new request, Updated out result ref n gen new request stopped s t := by
  unfold updateScheduled at call
  rw [get_bind] at call
  dsimp only at call
  obtain ⟨i, _, got, call⟩ := bind_ok call
  obtain ⟨index, rfl⟩ := getItem_ok got
  obtain ⟨gen, _, got, call⟩ := bind_ok call
  obtain ⟨sampled, rfl⟩ := getItem_ok got
  obtain ⟨moved, _, advance, call⟩ := bind_ok call
  obtain ⟨rfl, rfl, within⟩ := advanceComputed_ok advance
  rw [modify_bind] at call
  obtain ⟨drafted, _, draft, call⟩ := bind_ok call
  obtain ⟨rfl, drafting, outputs, computed, status, answer⟩ := newSpecTokenIds_ok draft
  cases made : generated s.maxModelLen drafted gen with
  | mk request rest =>
    obtain ⟨new, stopped'⟩ := rest
    rw [made] at call
    dsimp only at call
    rw [modify_bind] at call
    obtain ⟨_, v, freed, call⟩ := bind_ok call
    obtain ⟨_, w, removed, call⟩ := bind_ok call
    cases call
    obtain ⟨generated, silent, spoken⟩ := generated_ok made
    have advancing : Evolves (s.objects ref) (advanced (s.objects ref) n
        (out.scheduledSpecDecodeTokens.get? (s.objects ref).requestId) gen) :=
      Evolves.of_same rfl rfl rfl rfl rfl rfl rfl rfl rfl
    have evolves := advancing.trans drafting
    have tokens : drafted.numTokens = (s.objects ref).numTokens := by
      unfold Request.numTokens Request.allTokenIds
      rw [outputs, evolves.promptTokenIds]
      rfl
    have all := evolves.trans generated.evolves
    have inputs : s.freeComputedInputs request = s.freeComputedInputs (advanced (s.objects ref) n
        (out.scheduledSpecDecodeTokens.get? (s.objects ref).requestId) gen) := by
      apply freeComputedInputs_congr
      · exact all.requestId
      · exact all.mmPositions
      · exact generated.numComputedTokens.trans computed
    obtain ⟨scheduled, rfl⟩ := unschedule_ok removed
    have state : (stopped = false ∧ v = (s.freeComputedInputs request).setRequest ref request) ∨
        (stopped = true ∧ FreedRequest ref ((s.freeComputedInputs request).setRequest ref request) v) := by
      rw [inputs]
      unfold freeIf at freed
      cases stopped with
      | false =>
        cases freed
        exact Or.inl ⟨rfl, rfl⟩
      | true => exact Or.inr ⟨rfl, freeRequest_ok freed⟩
    have kept : v.scheduledReqIds = s.scheduledReqIds := by
      rcases state with ⟨-, rfl⟩ | ⟨-, -, -, _, _, -, -, rfl⟩ <;> rfl
    rw [kept] at scheduled
    refine ⟨gen, new, request, ⟨⟨i, index, sampled, ?_⟩, all, generated.numComputedTokens.trans computed, ?_, ?_, ?_,
      ?_, ?_, generated.stops, scheduled, ?_⟩⟩
    · rw [generated.specTokenIds]
      exact answer
    · intro none
      rw [generated.numComputedTokens, computed]
      exact within none
    · rw [generated.outputTokenIds, outputs]
      rfl
    · rw [generated.numComputedTokens, ← tokens]
      exact silent
    · rw [generated.numComputedTokens, ← tokens]
      exact spoken
    · intro on
      obtain ⟨-, same', short⟩ := generated.goes on
      exact ⟨same'.trans status, short⟩
    · rcases state with ⟨on, rfl⟩ | ⟨off, freed⟩
      · exact Or.inl ⟨on, rfl⟩
      · refine Or.inr ⟨off, v, freed, ?_⟩
        rw [kept]

theorem updateRequest_ok (call : updateRequest out result ref s = .ok (sent, stopped) t) :
    ((out.numScheduledTokens.get? (s.objects ref).requestId).getD 0 = 0 ∧ stopped = false ∧ t = s) ∨
      ∃ n gen new request, out.numScheduledTokens.get? (s.objects ref).requestId = some n ∧ 0 < n ∧
        Updated out result ref n gen new request stopped s t := by
  unfold updateRequest at call
  rw [get_bind] at call
  split at call
  · rename_i none
    cases call
    exact Or.inl ⟨none, rfl, rfl⟩
  · rename_i some
    right
    cases found : out.numScheduledTokens.get? (s.objects ref).requestId with
    | none => simp [found] at some
    | some n =>
      simp only [found, Option.getD_some] at call some
      obtain ⟨gen, new, request, updated⟩ := updateScheduled_ok call
      exact ⟨n, gen, new, request, rfl, Nat.pos_of_ne_zero some, updated⟩

variable {I : List RequestRef → List RequestRef → Scheduler → Prop}

/-- `update_from_output` goes through the running requests; `I` holds of those that go on, those to
come, and the state. -/
theorem updateEach_invariant {refs : List RequestRef}
    {outputs : List EngineCoreOutput} {newRunning : List RequestRef}
    (each : ∀ kept ref rest s t sent stopped, I kept (ref :: rest) s →
      updateRequest out result ref s = .ok (sent, stopped) t →
      I (if stopped then kept else kept ++ [ref]) rest t)
    {kept : List RequestRef} (start : I kept refs s)
    (call : updateEach out result refs s = .ok (outputs, newRunning) t) : I (kept ++ newRunning) [] t := by
  induction refs generalizing s kept outputs newRunning with
  | nil =>
    cases call
    rw [List.append_nil]
    exact start
  | cons ref rest ih =>
    unfold updateEach at call
    obtain ⟨first, v, updated, call⟩ := bind_ok call
    obtain ⟨sent, stopped⟩ := first
    obtain ⟨others, w, later, call⟩ := bind_ok call
    obtain ⟨outputs', newRunning'⟩ := others
    cases call
    have next := ih (each kept ref rest s v sent stopped start updated) later
    cases stopped with
    | true => exact next
    | false =>
      rw [if_neg (by decide), List.append_assoc] at next
      exact next

/-- When `update_from_output` raises, it does so for one of the requests to come. -/
theorem updateEach_error {refs : List RequestRef} {e : Raised}
    (each : ∀ kept ref rest s t sent stopped, I kept (ref :: rest) s →
      updateRequest out result ref s = .ok (sent, stopped) t →
      I (if stopped then kept else kept ++ [ref]) rest t)
    {kept : List RequestRef} (start : I kept refs s) (call : updateEach out result refs s = .error e t) :
    ∃ kept ref rest v, I kept (ref :: rest) v ∧ updateRequest out result ref v = .error e t := by
  induction refs generalizing s kept with
  | nil => cases call
  | cons ref rest ih =>
    unfold updateEach at call
    rcases bind_error call with raised | ⟨⟨sent, stopped⟩, v, updated, call⟩
    · exact ⟨kept, ref, rest, s, start, raised⟩
    · rcases bind_error call with raised | ⟨⟨outputs, newRunning⟩, w, -, call⟩
      · exact ih (each kept ref rest s v sent stopped start updated) raised
      · cases call

/-! ### The assertion of `update_from_output` -/

theorem free_avoids {e : Raised} (other : .assertionError .freeListIsEmpty ≠ e) (request : Request) :
    Avoids e (KVCacheManager.free request) := by
  have appends (b : BlockId) : Avoids e (FreeKVCacheBlockQueue.append b) := by
    apply Avoids.bind Avoids.get
    intro q
    split
    · exact Avoids.set _
    · exact Avoids.bind (check_avoids other) fun _ => Avoids.set _
  have frees (b : BlockId) : Avoids e (BlockPool.freeBlock b) := by
    apply Avoids.bind (Avoids.modify _)
    intro _
    apply Avoids.bind Avoids.get
    intro pool
    exact Avoids.ite (Avoids.zoom (appends b)) (Avoids.pure _)
  apply Avoids.bind Avoids.get
  intro s
  exact Avoids.bind (Avoids.set _) fun _ => Avoids.bind (Avoids.zoom (Avoids.forM frees _)) fun _ => Avoids.modify _

theorem freeIf_avoids {e : Raised} (others : e ∉ [.assertionError .freeListIsEmpty, .assertionError .statusIsFinished,
    .keyError]) (stopped : Bool) (ref : RequestRef) : Avoids e (freeIf stopped ref) := by
  rw [List.mem_cons, List.mem_cons, List.mem_singleton, not_or, not_or] at others
  cases stopped with
  | false => exact Avoids.pure _
  | true =>
    apply Avoids.bind Avoids.get
    intro s
    apply Avoids.bind (check_avoids (Ne.symm others.2.1))
    intro _
    apply Avoids.bind (Avoids.zoom (free_avoids (Ne.symm others.1) _))
    intro _
    apply Avoids.bind (Avoids.zoom (Avoids.modify _))
    intro _
    apply Avoids.bind Avoids.get
    intro s
    exact Avoids.bind (getItem_avoids (Ne.symm others.2.2)) fun _ => Avoids.set _

/-- The assertion fails for a request without drafts that was given more tokens than it had left. -/
theorem updateRequest_overrun
    (call : updateRequest out result ref s = .error (.assertionError .computedWithinTokens) t) :
    ∃ n, out.numScheduledTokens.get? (s.objects ref).requestId = some n ∧
      out.scheduledSpecDecodeTokens.get? (s.objects ref).requestId = none ∧
      (s.objects ref).numTokens < (s.objects ref).numComputedTokens + n := by
  unfold updateRequest at call
  rw [get_bind] at call
  split at call
  · cases call
  · rename_i some
    cases given : out.numScheduledTokens.get? (s.objects ref).requestId with
    | none => simp [given] at some
    | some n =>
      simp only [given, Option.getD_some] at call
      refine ⟨n, rfl, ?_⟩
      unfold updateScheduled at call
      rw [get_bind] at call
      rcases bind_error call with raised | ⟨i, u, got, call⟩
      · exact absurd raised (getItem_avoids (by decide) _ _)
      obtain ⟨-, rfl⟩ := getItem_ok got
      rcases bind_error call with raised | ⟨gen, u, got, call⟩
      · exact absurd raised (getItem_avoids (by decide) _ _)
      obtain ⟨-, rfl⟩ := getItem_ok got
      rcases bind_error call with raised | ⟨request, u, -, call⟩
      · unfold advanceComputed at raised
        cases drafts : out.scheduledSpecDecodeTokens.get? (s.objects ref).requestId with
        | some drafts' =>
          rw [drafts] at raised
          cases raised
        | none =>
          rw [drafts] at raised
          refine ⟨rfl, ?_⟩
          rcases bind_error raised with failed | ⟨_, _, -, done⟩
          · unfold check at failed
            split at failed
            · cases failed
            · rename_i beyond
              exact Nat.lt_of_not_le beyond
          · cases done
      rw [modify_bind] at call
      rcases bind_error call with raised | ⟨drafted, v, -, call⟩
      · unfold newSpecTokenIds at raised
        cases specs : result.specTokenIds with
        | none =>
          rw [specs] at raised
          cases raised
        | some all =>
          rw [specs] at raised
          rcases bind_error raised with failed | ⟨_, _, -, done⟩
          · exact absurd failed (getItem_avoids (by decide) _ _)
          · cases done
      dsimp only at call
      rw [modify_bind] at call
      rcases bind_error call with raised | ⟨_, w, -, call⟩
      · exact absurd raised (freeIf_avoids (by decide) _ _ _ _)
      rcases bind_error call with raised | ⟨_, x, -, call⟩
      · unfold unschedule at raised
        rw [get_bind] at raised
        split at raised <;> cases raised
      · cases call

end Scheduler
end Vllm.V1
