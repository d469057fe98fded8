import VllmProofs.V1.KVCacheBlocks
import VllmProofs.V1.Scheduler

/-!
What `schedule` can do, round by round: the moves its loops make, the calls of `allocate_slots` they
try, and where it can raise.
-/

namespace Vllm.V1
open Exec

/-- The assertions of `schedule` itself, and those of `allocate_slots` about the blocks of a request. -/
def scheduleAssertions : List Assertion :=
  [.blockHashIsNone, .numNewBlocksPositive, .numNewTokensPositive, .atMostMaxLoras, .withinTokenBudget,
    .withinMaxNumSeqs, .scheduledAreRunning]

def Elsewhere (e : Raised) : Prop := ∀ assertion ∈ scheduleAssertions, e ≠ .assertionError assertion

instance (e : Raised) : Decidable (Elsewhere e) := inferInstanceAs (Decidable (∀ _ ∈ _, _))

/-! ### Exceptions of the other methods of the KV cache manager -/

section
variable {s t : KVCacheManager} {request : Request} {e : Raised} {α : Type}

theorem append_elsewhere (b : BlockId) (q : FreeKVCacheBlockQueue) :
    wp (FreeKVCacheBlockQueue.append b) (fun _ _ => True) (fun e _ => Elsewhere e) q := by
  unfold FreeKVCacheBlockQueue.append
  rw [wp_bind, wp_get]
  split
  · trivial
  · rw [wp_bind, wp_check]
    exact ⟨fun _ => trivial, fun _ => by decide⟩

theorem freeBlock_elsewhere (b : BlockId) (pool : BlockPool) :
    wp (BlockPool.freeBlock b) (fun _ _ => True) (fun e _ => Elsewhere e) pool := by
  unfold BlockPool.freeBlock
  rw [wp_bind, wp_modify, wp_bind, wp_get, wp_ite]
  refine ⟨fun _ => ?_, fun _ => trivial⟩
  unfold BlockPool.onQueue
  rw [wp_zoom]
  exact append_elsewhere b _

theorem free_elsewhere (request : Request) (s : KVCacheManager) :
    wp (KVCacheManager.free request) (fun _ _ => True) (fun e _ => Elsewhere e) s := by
  unfold KVCacheManager.free
  rw [wp_bind, wp_get]
  dsimp only
  rw [wp_bind, wp_set, wp_bind]
  unfold KVCacheManager.onPool
  rw [wp_zoom]
  apply (wp_forM (I := fun _ _ => True) trivial fun _ b _ pool _ _ => freeBlock_elsewhere b pool).mono
  · exact fun _ _ _ => trivial
  · exact fun _ _ raised => raised

theorem genMmExtraHashKeys_elsewhere {start stop startMmIdx : ℤ}
    (raised : genMmExtraHashKeys request start stop startMmIdx = .error e) : Elsewhere e := by
  unfold genMmExtraHashKeys at raised
  dsimp only at raised
  split at raised
  · cases raised
  · split at raised
    · cases raised
      decide
    · split at raised
      · cases raised
      · split at raised
        · cases raised
          decide
        · cases raised

theorem extraKeysFrom_elsewhere {blockSize start : ℕ} {currMmIdx : ℤ}
    (raised : extraKeysFrom blockSize request start currMmIdx = .error e) : Elsewhere e := by
  unfold extraKeysFrom at raised
  split at raised
  · unfold generateBlockHashExtraKeys at raised
    cases keys : genMmExtraHashKeys request start (start + blockSize : ℕ) currMmIdx with
    | ok keys' => rw [keys] at raised; cases raised
    | error e' =>
      rw [keys] at raised
      cases raised
      exact genMmExtraHashKeys_elsewhere keys
  · cases raised

variable [TupleHash]

theorem hashBlocks_elsewhere {blockSize : ℕ} {starts : List ℕ} {currMmIdx : ℤ} {parent : Option ℤ}
    (raised : hashBlocks blockSize request starts currMmIdx parent = .error e) : Elsewhere e := by
  induction starts generalizing currMmIdx parent with
  | nil => cases raised
  | cons start rest ih =>
    rw [hashBlocks] at raised
    dsimp only at raised
    split at raised
    · cases raised
    · cases keys : extraKeysFrom blockSize request start currMmIdx with
      | error e' =>
        rw [keys] at raised
        cases raised
        exact extraKeysFrom_elsewhere keys
      | ok found =>
        rw [keys] at raised
        dsimp only [bind, Except.bind] at raised
        split at raised
        · rename_i inner
          cases raised
          exact ih inner
        · cases raised

omit [TupleHash] in
theorem cachedPrefix_elsewhere (hashes : List BlockHash) (pool : BlockPool) :
    wp (KVCacheManager.cachedPrefix hashes) (fun _ _ => True) (fun e _ => Elsewhere e) pool := by
  induction hashes generalizing pool with
  | nil => trivial
  | cons blockHash rest ih =>
    unfold KVCacheManager.cachedPrefix
    rw [wp_bind]
    have looked : wp (BlockPool.getCachedBlock blockHash) (fun _ _ => True) (fun e _ => Elsewhere e) pool := by
      unfold BlockPool.getCachedBlock
      rw [wp_bind, wp_get]
      split
      · trivial
      · rw [wp_bind]
        unfold getItem
        split
        · exact (by decide : Elsewhere .indexError)
        · trivial
    apply looked.mono
    · intro found pool' _
      cases found with
      | none => trivial
      | some b =>
        rw [wp_bind]
        exact (ih pool').mono (fun _ _ _ => trivial) fun _ _ raised => raised
    · exact fun _ _ raised => raised

theorem getComputedBlocks_elsewhere (request : Request) (s : KVCacheManager) :
    wp (KVCacheManager.getComputedBlocks request) (fun _ _ => True) (fun e _ => Elsewhere e) s := by
  unfold KVCacheManager.getComputedBlocks
  rw [wp_bind, wp_get, wp_ite]
  refine ⟨fun _ => trivial, fun _ => ?_⟩
  rw [wp_bind]
  have hashes : wp (KVCacheManager.blockHashesOf request) (fun _ _ => True) (fun e _ => Elsewhere e) s := by
    unfold KVCacheManager.blockHashesOf
    rw [wp_bind, wp_get, wp_ite]
    refine ⟨fun _ => trivial, fun _ => ?_⟩
    split
    · rename_i raised
      exact hashBlocks_elsewhere raised
    · trivial
  apply hashes.mono
  · intro blockHashes t _
    cases request.samplingParams.promptLogprobs with
    | some k => trivial
    | none =>
      rw [wp_bind]
      unfold KVCacheManager.onPool
      rw [wp_zoom]
      exact (cachedPrefix_elsewhere blockHashes _).mono (fun _ _ _ => trivial) fun _ _ raised => raised
  · exact fun _ _ raised => raised

end

/-! ### The moves of the loops -/

namespace Scheduler

/-- The tokens a running request lacks, as far as the budget goes. -/
def numNewRunning (p : Pass) (request : Request) : ℕ :=
  min (request.numTokensWithSpec - request.numComputedTokens) p.tokenBudget

structure RunAttempt (s : Scheduler) (p : Pass) (ref : RequestRef) (plan : EncoderPlan) : Prop where
  at_ : s.running[p.reqIndex]? = some ref
  budget : 0 < p.tokenBudget
  idle : (s.objects ref).requestId ∉ s.scheduledReqIds
  positive : 0 < numNewRunning p (s.objects ref)
  planned : plan = s.tryScheduleEncoderInputs (s.objects ref) (s.objects ref).numComputedTokens
    (numNewRunning p (s.objects ref)) p.encoderBudget
  tokens : plan.numNewTokens ≠ 0

/-- The loop over running requests passes `ref` by: it is in a batch already, or no token before the
next encoder input is left. -/
structure PassedBy (s : Scheduler) (p : Pass) (ref : RequestRef) : Prop where
  at_ : s.running[p.reqIndex]? = some ref
  budget : 0 < p.tokenBudget
  reason : (s.objects ref).requestId ∈ s.scheduledReqIds ∨ 0 < numNewRunning p (s.objects ref) ∧
    (s.tryScheduleEncoderInputs (s.objects ref) (s.objects ref).numComputedTokens
      (numNewRunning p (s.objects ref)) p.encoderBudget).numNewTokens = 0

structure WaitingTurn (s : Scheduler) (p : Pass) (ref : RequestRef) : Prop where
  ended : s.running[p.reqIndex]? = none
  head : s.waiting.head? = some ref
  budget : 0 < p.tokenBudget
  room : s.running.length ≠ s.maxNumRunningReqs
  noPreemption : p.preemptedReqs = []
  recorded : s.maxLoras ≠ none → s.runningLoras p ⊆ p.requestedLoras

variable [TupleHash]

/-- The loop over waiting requests has looked up the blocks of `ref`, and is about to ask for slots
beside `hits`. -/
structure AdmitAttempt (s : Scheduler) (p : Pass) (ref : RequestRef) (hits : List BlockId)
    (numComputedTokens numNewTokens : ℕ) (plan : EncoderPlan) (manager : KVCacheManager) : Prop
    extends WaitingTurn s p ref where
  awake : (s.objects ref).status ≠ .waitingForFsm
  lora : ¬s.lacksLora p (s.objects ref)
  looked : ∃ found left t,
    KVCacheManager.getComputedBlocks (s.objects ref) s.kvCacheManager = .ok found manager ∧
    hitsToUse (s.objects ref) s.blockSize found t = .ok (hits, numComputedTokens, left) t ∧
    numNewTokens = min left p.tokenBudget
  positive : 0 < numNewTokens
  planned : plan = s.tryScheduleEncoderInputs (s.objects ref) numComputedTokens numNewTokens p.encoderBudget
  tokens : plan.numNewTokens ≠ 0

/-- A round of one of the loops, or a preemption within it. -/
inductive Move : Scheduler × Pass → Scheduler × Pass → Prop
  | skip {s : Scheduler} {p : Pass} {ref : RequestRef} (passed : PassedBy s p ref) : Move (s, p) (s, p.skip)
  | preempt {s : Scheduler} {p : Pass} {rest : List RequestRef} {ref ref' : RequestRef} {plan : EncoderPlan}
      {manager : KVCacheManager} (attempt : RunAttempt s p ref' plan)
      (lacks : KVCacheManager.allocateSlots (s.objects ref') plan.numNewTokens [] s.kvCacheManager =
        .ok none s.kvCacheManager)
      (last : s.running = rest ++ [ref])
      (freed : KVCacheManager.free (s.objects ref) s.kvCacheManager = .ok () manager) :
      Move (s, p) (preempted ref ((s.setRunning rest).setKVCacheManager manager), p.preempt ref)
  | run {s : Scheduler} {p : Pass} {ref : RequestRef} {plan : EncoderPlan} {newBlocks : List BlockId}
      {manager : KVCacheManager} (attempt : RunAttempt s p ref plan)
      (got : KVCacheManager.allocateSlots (s.objects ref) plan.numNewTokens [] s.kvCacheManager =
        .ok (some newBlocks) manager) :
      Move (s, p) (takeRunning ref plan (s.setKVCacheManager manager),
        p.giveRunning ref (s.objects ref) plan newBlocks)
  | recordLoras {s : Scheduler} {p : Pass} (first : p.requestedLoras = []) :
      Move (s, p) (s, { p with requestedLoras := s.runningLoras p })
  | setAside {s : Scheduler} {p : Pass} {ref : RequestRef} {rest : List RequestRef} (turn : WaitingTurn s p ref)
      (queue : s.waiting = ref :: rest) (waits : waitsForGrammar (s.objects ref)) :
      Move (s, p) (s.setWaiting rest, p.setAside ref)
  | wake {s : Scheduler} {p : Pass} {ref : RequestRef} (turn : WaitingTurn s p ref)
      (ready : ¬waitsForGrammar (s.objects ref)) : Move (s, p) (s.wake ref, p)
  | lookup {s : Scheduler} {p : Pass} {ref : RequestRef} {found : List BlockId × ℕ} {manager : KVCacheManager}
      (turn : WaitingTurn s p ref) (lora : ¬s.lacksLora p (s.objects ref))
      (looked : KVCacheManager.getComputedBlocks (s.objects ref) s.kvCacheManager = .ok found manager) :
      Move (s, p) (s.setKVCacheManager manager, p)
  | admitRequest {s : Scheduler} {p : Pass} {ref : RequestRef} {hits newBlocks : List BlockId}
      {numComputedTokens numNewTokens : ℕ} {plan : EncoderPlan} {looked manager : KVCacheManager}
      (attempt : AdmitAttempt s p ref hits numComputedTokens numNewTokens plan looked)
      (status : (s.objects ref).status = .waiting ∨ (s.objects ref).status = .preempted)
      (got : KVCacheManager.allocateSlots (s.objects ref) plan.numNewTokens hits looked =
        .ok (some newBlocks) manager) :
      Move (s, p) (takeWaiting ref numComputedTokens plan (s.setKVCacheManager manager),
        p.giveWaiting ref (s.objects ref) s.maxLoras plan (hits ++ newBlocks))

def Moves (s : Scheduler) (p : Pass) (s' : Scheduler) (p' : Pass) : Prop :=
  Relation.ReflTransGen Move (s, p) (s', p')

/-- How the loops can raise. -/
inductive Raises (s : Scheduler) (p : Pass) : Raised → Prop
  | running {ref : RequestRef} {plan : EncoderPlan} {e : Raised} {manager : KVCacheManager}
      (attempt : RunAttempt s p ref plan)
      (raised : KVCacheManager.allocateSlots (s.objects ref) plan.numNewTokens [] s.kvCacheManager =
        .error e manager) : Raises s p e
  | waiting {ref : RequestRef} {hits : List BlockId} {numComputedTokens numNewTokens : ℕ} {plan : EncoderPlan}
      {e : Raised} {looked manager : KVCacheManager}
      (attempt : AdmitAttempt s p ref hits numComputedTokens numNewTokens plan looked)
      (raised : KVCacheManager.allocateSlots (s.objects ref) plan.numNewTokens hits looked =
        .error e manager) : Raises s p e
  | nothingToRun {ref : RequestRef} (at_ : s.running[p.reqIndex]? = some ref) (budget : 0 < p.tokenBudget)
      (idle : (s.objects ref).requestId ∉ s.scheduledReqIds) (none : numNewRunning p (s.objects ref) = 0) :
      Raises s p (.assertionError .numNewTokensPositive)
  | nothingToAdmit {ref : RequestRef} {found : List BlockId × ℕ} {hits : List BlockId}
      {numComputedTokens left : ℕ} {looked : KVCacheManager} {t : Scheduler} (turn : WaitingTurn s p ref)
      (lookup : KVCacheManager.getComputedBlocks (s.objects ref) s.kvCacheManager = .ok found looked)
      (used : hitsToUse (s.objects ref) s.blockSize found t = .ok (hits, numComputedTokens, left) t)
      (none : left = 0) : Raises s p (.assertionError .numNewTokensPositive)
  | loras {maxLoras : ℕ} (counted : s.maxLoras = some maxLoras) (many : maxLoras < (s.runningLoras p).length) :
      Raises s p (.assertionError .atMostMaxLoras)
  | tokenBudget (many : s.maxNumScheduledTokens < p.numScheduledTokens.values.sum) :
      Raises s p (.assertionError .withinTokenBudget)
  | maxNumSeqs (many : s.maxNumRunningReqs < s.running.length) : Raises s p (.assertionError .withinMaxNumSeqs)
  | scheduled (many : s.running.length < p.scheduledNewReqs.length + p.scheduledResumedReqs.length +
      p.scheduledRunningReqs.length) : Raises s p (.assertionError .scheduledAreRunning)
  | elsewhere {e : Raised} (elsewhere : Elsewhere e) : Raises s p e

/-- The loops raise after some moves. -/
def RaisesAfter (s : Scheduler) (p : Pass) (e : Raised) : Prop :=
  ∃ s' p', Moves s p s' p' ∧ Raises s' p' e

variable {s s' s'' : Scheduler} {p p' p'' : Pass} {ref : RequestRef} {plan : EncoderPlan} {e : Raised}

theorem Moves.refl (s : Scheduler) (p : Pass) : Moves s p s p := Relation.ReflTransGen.refl

theorem Moves.trans (first : Moves s p s' p') (second : Moves s' p' s'' p'') : Moves s p s'' p'' :=
  Relation.ReflTransGen.trans first second

theorem Moves.snoc (moves : Moves s p s' p') (move : Move (s', p') (s'', p'')) : Moves s p s'' p'' :=
  Relation.ReflTransGen.tail moves move

theorem Move.moves (move : Move (s, p) (s', p')) : Moves s p s' p' := Relation.ReflTransGen.single move

theorem Moves.invariant {I : Scheduler → Pass → Prop} (moves : Moves s p s' p') (start : I s p)
    (each : ∀ t q t' q', Moves s p t q → I t q → Move (t, q) (t', q') → I t' q') : I s' p' := by
  unfold Moves at moves
  generalize reached : (s', p') = last at moves
  induction moves generalizing s' p' with
  | refl =>
    cases reached
    exact start
  | tail before move ih =>
    subst reached
    rename_i mid
    exact each mid.1 mid.2 s' p' before (ih rfl) move

theorem RaisesAfter.after (moves : Moves s p s' p') (raises : RaisesAfter s' p' e) : RaisesAfter s p e := by
  obtain ⟨t, q, further, raised⟩ := raises
  exact ⟨t, q, moves.trans further, raised⟩

theorem Raises.now (raises : Raises s p e) : RaisesAfter s p e := ⟨s, p, Moves.refl s p, raises⟩

/-! ### The loop over running requests -/

omit [TupleHash] in
theorem preemptLast_spec (s : Scheduler) :
    wp preemptLast (fun ref t => ∃ rest manager, s.running = rest ++ [ref] ∧
        KVCacheManager.free (s.objects ref) s.kvCacheManager = .ok () manager ∧
        t = preempted ref ((s.setRunning rest).setKVCacheManager manager))
      (fun e _ => Elsewhere e) s := by
  unfold preemptLast
  rw [wp_bind, wp_get, wp_bind]
  cases last : s.running.getLast? with
  | none => exact (by decide : Elsewhere .indexError)
  | some ref =>
    show wp (set _ >>= _) _ _ s
    rw [wp_bind, wp_set, wp_bind]
    unfold onKVCacheManager
    rw [wp_zoom]
    apply wp_intro
    · intro _ manager freed
      rw [wp_bind, wp_modify, wp_pure]
      exact ⟨s.running.dropLast, manager, (List.dropLast_append_getLast? ref last).symm, freed, rfl⟩
    · intro e manager raised
      exact (free_elsewhere _ _).error raised

omit [TupleHash] in
/-- The attempt for `ref` goes on after another request has been preempted. -/
theorem RunAttempt.preempt {rest : List RequestRef} {ref' : RequestRef} (manager : KVCacheManager)
    (attempt : RunAttempt s p ref plan) (last : s.running = rest ++ [ref']) (other : ref' ≠ ref) :
    RunAttempt (preempted ref' ((s.setRunning rest).setKVCacheManager manager)) (p.preempt ref') ref plan ∧
      (preempted ref' ((s.setRunning rest).setKVCacheManager manager)).objects ref = s.objects ref := by
  have same : (preempted ref' ((s.setRunning rest).setKVCacheManager manager)).objects ref =
      s.objects ref := Function.update_of_ne (Ne.symm other) _ _
  refine ⟨⟨?_, attempt.budget, ?_, ?_, ?_, attempt.tokens⟩, same⟩
  · have here := attempt.at_
    rw [last] at here
    show rest[p.reqIndex]? = some ref
    rcases Nat.lt_trichotomy p.reqIndex rest.length with inside | end_ | outside
    · rw [List.getElem?_append_left inside] at here
      exact here
    · rw [end_, List.getElem?_concat_length, Option.some.injEq] at here
      exact absurd here other
    · have length := (List.getElem?_eq_some_iff.mp here).1
      rw [List.length_append, List.length_singleton] at length
      omega
  · rw [same]
    exact attempt.idle
  · rw [same]
    exact attempt.positive
  · rw [same]
    exact attempt.planned

/-- What the inner loop of `schedule` has done: the request has its slots, or has been preempted itself. -/
def Settled (s : Scheduler) (p : Pass) (ref : RequestRef) (plan : EncoderPlan)
    (result : Option (List BlockId) × Pass) (t : Scheduler) : Prop :=
  (result.2.reqIndex = p.reqIndex ∧ t.running.length ≤ s.running.length ∧
    result.2.requestedLoras = p.requestedLoras) ∧
    match result.1 with
    | none => Moves s p t result.2 ∧ result.2.preemptedReqs ≠ []
    | some newBlocks => ∃ u manager, Moves s p u result.2 ∧ RunAttempt u result.2 ref plan ∧
        u.objects ref = s.objects ref ∧ t = u.setKVCacheManager manager ∧
        KVCacheManager.allocateSlots (u.objects ref) plan.numNewTokens [] u.kvCacheManager =
          .ok (some newBlocks) manager

theorem allocateOrPreempt_spec {fuel : ℕ} (enough : s.running.length ≤ fuel) (attempt : RunAttempt s p ref plan) :
    wp (allocateOrPreempt ref (s.objects ref) plan.numNewTokens fuel p) (Settled s p ref plan)
      (fun e _ => RaisesAfter s p e) s := by
  induction fuel generalizing s p with
  | zero =>
    have inside := (List.getElem?_eq_some_iff.mp attempt.at_).1
    omega
  | succ fuel ih =>
    unfold allocateOrPreempt
    rw [wp_bind]
    unfold onKVCacheManager
    rw [wp_zoom]
    apply wp_intro
    · intro newBlocks manager got
      cases newBlocks with
      | some newBlocks => exact ⟨⟨rfl, le_refl _, rfl⟩, s, manager, Moves.refl s p, attempt, rfl, rfl, got⟩
      | none =>
        obtain ⟨-, -, rfl⟩ := KVCacheManager.allocateSlots_none got
        show wp (preemptLast >>= _) _ _ s
        rw [wp_bind]
        apply (preemptLast_spec s).mono
        · rintro ref' t ⟨rest, manager, last, freed, rfl⟩
          have move := (Move.preempt attempt got last freed).moves
          have shorter : rest.length + 1 = s.running.length := by
            rw [last, List.length_append, List.length_singleton]
          split
          · exact ⟨⟨rfl, Nat.le_of_succ_le shorter.le, rfl⟩, move, by simp [Pass.preempt]⟩
          · rename_i other
            obtain ⟨next, same⟩ := attempt.preempt manager last other
            have later := ih (show rest.length ≤ fuel by omega) next
            rw [same] at later
            apply later.mono
            · rintro ⟨newBlocks, q⟩ u ⟨⟨index, fewer, loras⟩, settled⟩
              have fewer' : u.running.length ≤ rest.length := fewer
              refine ⟨⟨index, by omega, loras⟩, ?_⟩
              cases newBlocks with
              | none => exact ⟨move.trans settled.1, settled.2⟩
              | some newBlocks =>
                obtain ⟨v, manager', moves, attempt', same', after, got'⟩ := settled
                exact ⟨v, manager', move.trans moves, attempt', same'.trans same, after, got'⟩
            · exact fun e _ raised => raised.after move
        · exact fun e _ raised => (Raises.elsewhere raised).now
    · exact fun e manager raised => (Raises.running attempt raised).now

theorem runningRound_spec (at_ : s.running[p.reqIndex]? = some ref) (budget : 0 < p.tokenBudget) :
    wp (runningRound ref p)
      (fun result t => Moves s p t result.1 ∧ (result.2 = true →
        result.1.reqIndex = p.reqIndex + 1 ∧ t.running.length ≤ s.running.length) ∧
        (result.2 = false → result.1.preemptedReqs ≠ []) ∧ result.1.requestedLoras = p.requestedLoras)
      (fun e _ => RaisesAfter s p e) s := by
  unfold runningRound
  rw [wp_bind, wp_get]
  dsimp only
  rw [wp_ite]
  refine ⟨fun busy => ⟨(Move.skip ⟨at_, budget, Or.inl busy⟩).moves, fun _ => ⟨rfl, le_refl _⟩, nofun, rfl⟩,
    fun idle => ?_⟩
  rw [wp_bind, wp_check]
  refine ⟨fun positive => ?_, fun none => (Raises.nothingToRun at_ budget idle (Nat.eq_zero_of_not_pos none)).now⟩
  rw [wp_ite]
  refine ⟨fun none => ⟨(Move.skip ⟨at_, budget, Or.inr ⟨positive, none⟩⟩).moves, fun _ => ⟨rfl, le_refl _⟩, nofun, rfl⟩,
    fun some => ?_⟩
  have attempt : RunAttempt s p ref (s.tryScheduleEncoderInputs (s.objects ref)
      (s.objects ref).numComputedTokens (numNewRunning p (s.objects ref)) p.encoderBudget) :=
    ⟨at_, budget, idle, positive, rfl, some⟩
  rw [wp_bind]
  apply (allocateOrPreempt_spec (le_refl s.running.length) attempt).mono
  · rintro ⟨newBlocks, q⟩ t ⟨⟨index, fewer, loras⟩, settled⟩
    cases newBlocks with
    | none => exact ⟨settled.1, nofun, fun _ => settled.2, loras⟩
    | some newBlocks =>
      obtain ⟨u, manager, moves, attempt', same, rfl, got⟩ := settled
      refine ⟨?_, fun _ => ⟨congrArg (· + 1) index, fewer⟩, nofun, loras⟩
      have move := Move.run attempt' got
      rw [same] at move
      exact moves.snoc move
  · exact fun e _ raised => raised

/-- The loop over running requests has come to its end, or to a request that had to be preempted. -/
def RunningOver (s : Scheduler) (p : Pass) : Prop :=
  s.running[p.reqIndex]? = none ∨ p.tokenBudget = 0 ∨ p.preemptedReqs ≠ []

theorem scheduleRunning_spec {fuel : ℕ} {s : Scheduler} {p : Pass} (enough : s.running.length ≤ p.reqIndex + fuel) :
    wp (scheduleRunning fuel p) (fun q t => Moves s p t q ∧ RunningOver t q ∧ q.requestedLoras = p.requestedLoras)
      (fun e _ => RaisesAfter s p e) s := by
  induction fuel generalizing s p with
  | zero => exact ⟨Moves.refl s p, Or.inl (List.getElem?_eq_none enough), rfl⟩
  | succ fuel ih =>
    unfold scheduleRunning
    rw [wp_bind, wp_get]
    split
    · rename_i ended
      exact ⟨Moves.refl s p, Or.inl ended, rfl⟩
    · rename_i ref at_
      rw [wp_ite]
      refine ⟨fun spent => ⟨Moves.refl s p, Or.inr (Or.inl spent), rfl⟩, fun budget => ?_⟩
      rw [wp_bind]
      apply (runningRound_spec at_ (Nat.pos_of_ne_zero budget)).mono
      · rintro ⟨q, goesOn⟩ t ⟨moves, onward, stuck, loras⟩
        cases goesOn with
        | false => exact ⟨moves, Or.inr (Or.inr (stuck rfl)), loras⟩
        | true =>
          obtain ⟨index, fewer⟩ := onward rfl
          have later : q.reqIndex = p.reqIndex + 1 := index
          apply (ih (s := t) (p := q) (by omega)).mono
          · exact fun r u further => ⟨moves.trans further.1, further.2.1, further.2.2.trans loras⟩
          · exact fun e _ raised => raised.after moves
      · exact fun e _ raised => raised

/-! ### The loop over waiting requests -/

omit [TupleHash] in
theorem hitsToUse_spec (request : Request) (blockSize : ℕ) (found : List BlockId × ℕ) (s : Scheduler) :
    wp (hitsToUse request blockSize found)
      (fun used t => t = s ∧ hitsToUse request blockSize found s = .ok used s) (fun e _ => Elsewhere e) s := by
  unfold hitsToUse
  split
  · rw [wp_bind]
    cases last : found.1.getLast? with
    | none => exact (by decide : Elsewhere .indexError)
    | some b => exact ⟨rfl, rfl⟩
  · exact ⟨rfl, rfl⟩

omit [TupleHash] in
theorem WaitingTurn.admitted {hits newBlocks : List BlockId} {c : ℕ} {manager : KVCacheManager}
    (turn : WaitingTurn s p ref) :
    (takeWaiting ref c plan (s.setKVCacheManager manager)).running[
        (p.giveWaiting ref (s.objects ref) s.maxLoras plan (hits ++ newBlocks)).reqIndex]? = none ∧
      (s.maxLoras ≠ none → (takeWaiting ref c plan (s.setKVCacheManager manager)).runningLoras
        (p.giveWaiting ref (s.objects ref) s.maxLoras plan (hits ++ newBlocks)) ⊆
        (p.giveWaiting ref (s.objects ref) s.maxLoras plan (hits ++ newBlocks)).requestedLoras) := by
  constructor
  · apply List.getElem?_eq_none
    have ended := List.getElem?_eq_none_iff.mp turn.ended
    show (s.running ++ [ref]).length ≤ p.reqIndex + 1
    rw [List.length_append, List.length_singleton]
    omega
  · intro counted lora member
    have before : lora ∈ s.runningLoras p := by
      have same : ∀ ref', ((takeWaiting ref c plan (s.setKVCacheManager manager)).objects ref').loraRequest =
          (s.objects ref').loraRequest := by
        intro ref'
        rw [takeWaiting_objects, setRequest_objects, Function.update_apply]
        split
        · rename_i here
          rw [here]
          rfl
        · rfl
      unfold runningLoras at member ⊢
      simp only [same] at member
      exact member
    show lora ∈ p.addLora s.maxLoras (s.objects ref)
    unfold Pass.addLora
    split
    · exact List.mem_insert_of_mem (turn.recorded counted before)
    · exact turn.recorded counted before

theorem waitingRound_spec (turn : WaitingTurn s p ref) (awake : (s.objects ref).status ≠ .waitingForFsm) :
    wp (waitingRound ref p)
      (fun result t => Moves s p t result.1 ∧ (result.2 = true →
        result.1.preemptedReqs = [] ∧ t.waiting = s.waiting.tail ∧ t.running[result.1.reqIndex]? = none ∧
        (t.maxLoras ≠ none → t.runningLoras result.1 ⊆ result.1.requestedLoras)))
      (fun e _ => RaisesAfter s p e) s := by
  unfold waitingRound
  rw [wp_bind, wp_get]
  dsimp only
  rw [wp_ite]
  refine ⟨fun _ => ⟨Moves.refl s p, nofun⟩, fun lora => ?_⟩
  rw [wp_bind]
  unfold onKVCacheManager
  rw [wp_zoom]
  apply wp_intro
  · intro found looked lookup
    have moved := (Move.lookup turn lora lookup).moves
    rw [wp_bind]
    apply (hitsToUse_spec _ _ _ _).mono
    · rintro ⟨hits, numComputedTokens, left⟩ t ⟨rfl, used⟩
      dsimp only
      rw [wp_bind, wp_check]
      have budget := turn.budget
      refine ⟨fun positive => ?_, fun none => (Raises.nothingToAdmit turn lookup used (by omega)).now⟩
      rw [wp_ite]
      refine ⟨fun _ => ⟨moved, nofun⟩, fun tokens => ?_⟩
      have attempt : AdmitAttempt s p ref hits numComputedTokens (min left p.tokenBudget)
          (s.tryScheduleEncoderInputs (s.objects ref) numComputedTokens (min left p.tokenBudget)
            p.encoderBudget) looked :=
        ⟨turn, awake, lora, ⟨found, left, _, lookup, used, rfl⟩, positive, rfl, tokens⟩
      rw [wp_bind, wp_zoom]
      apply wp_intro
      · intro newBlocks manager got
        cases newBlocks with
        | none =>
          obtain ⟨-, -, rfl⟩ := KVCacheManager.allocateSlots_none got
          exact ⟨moved, nofun⟩
        | some newBlocks =>
          dsimp only
          rw [wp_ite]
          constructor
          · intro status
            rw [wp_bind, wp_modify, wp_pure]
            exact ⟨(Move.admitRequest attempt status got).moves, fun _ => ⟨turn.noPreemption, rfl, turn.admitted⟩⟩
          · intro _
            rw [wp_throw]
            exact Raises.now (.elsewhere (by decide))
      · exact fun e manager raised => (Raises.waiting attempt raised).now
    · exact fun e _ raised => (Raises.elsewhere raised).now
  · exact fun e manager raised => (Raises.elsewhere ((getComputedBlocks_elsewhere _ _).error raised)).now

omit [TupleHash] in
theorem wake_status (s : Scheduler) (ref : RequestRef) :
    ((s.wake ref).objects ref).status ≠ .waitingForFsm := by
  unfold wake
  split
  · unfold setRequest
    simp
  · assumption

omit [TupleHash] in
@[simp] theorem wake_waiting (s : Scheduler) (ref : RequestRef) : (s.wake ref).waiting = s.waiting := by
  unfold wake
  split <;> rfl

omit [TupleHash] in
@[simp] theorem wake_running (s : Scheduler) (ref : RequestRef) : (s.wake ref).running = s.running := by
  unfold wake
  split <;> rfl

omit [TupleHash] in
@[simp] theorem wake_maxNumRunningReqs (s : Scheduler) (ref : RequestRef) :
    (s.wake ref).maxNumRunningReqs = s.maxNumRunningReqs := by
  unfold wake
  split <;> rfl

omit [TupleHash] in
theorem wake_runningLoras (s : Scheduler) (p : Pass) (ref : RequestRef) :
    (s.wake ref).runningLoras p = s.runningLoras p := by
  have same : ∀ ref', ((s.wake ref).objects ref').loraRequest = (s.objects ref').loraRequest := by
    intro ref'
    unfold wake
    split
    · rw [setRequest_objects, Function.update_apply]
      split
      · rename_i here
        rw [here]
        rfl
      · rfl
    · rfl
  unfold runningLoras
  simp only [same]

omit [TupleHash] in
theorem WaitingTurn.wake (turn : WaitingTurn s p ref) : WaitingTurn (s.wake ref) p ref := by
  have loras : (s.wake ref).maxLoras = s.maxLoras := by
    unfold Scheduler.wake
    split
    · rfl
    · rfl
  refine ⟨?_, ?_, turn.budget, ?_, turn.noPreemption, ?_⟩
  · rw [wake_running]
    exact turn.ended
  · rw [wake_waiting]
    exact turn.head
  · rw [wake_running, wake_maxNumRunningReqs]
    exact turn.room
  · rw [wake_runningLoras, loras]
    exact turn.recorded

theorem scheduleWaiting_spec {fuel : ℕ} {s : Scheduler} {p : Pass} (noPreemption : p.preemptedReqs = [])
    (ended : s.running[p.reqIndex]? = none ∨ p.tokenBudget = 0)
    (recorded : s.maxLoras ≠ none → s.runningLoras p ⊆ p.requestedLoras) :
    wp (scheduleWaiting fuel p) (fun q t => Moves s p t q) (fun e _ => RaisesAfter s p e) s := by
  induction fuel generalizing s p with
  | zero => exact Moves.refl s p
  | succ fuel ih =>
    unfold scheduleWaiting
    rw [wp_bind, wp_get]
    split
    · exact Moves.refl s p
    · rename_i ref rest queue
      have head : s.waiting.head? = some ref := by rw [queue, List.head?_cons]
      rw [wp_ite]
      refine ⟨fun _ => Moves.refl s p, fun going => ?_⟩
      rw [not_or] at going
      have turn : WaitingTurn s p ref :=
        ⟨ended.resolve_right going.1, head, Nat.pos_of_ne_zero going.1, going.2, noPreemption, recorded⟩
      rw [wp_ite]
      constructor
      · intro waits
        have moved := (Move.setAside turn queue waits).moves
        rw [wp_bind, wp_set]
        apply (ih (s := s.setWaiting rest) (p := p.setAside ref) noPreemption (Or.inl turn.ended) recorded).mono
        · exact fun q t further => moved.trans further
        · exact fun e _ raised => raised.after moved
      · intro ready
        have moved := (Move.wake turn ready).moves
        rw [wp_bind, wp_modify, wp_bind]
        apply (waitingRound_spec turn.wake (wake_status s ref)).mono
        · rintro ⟨q, goesOn⟩ t ⟨moves, onward⟩
          cases goesOn with
          | false => exact moved.trans moves
          | true =>
            obtain ⟨kept, -, ended', recorded'⟩ := onward rfl
            apply (ih kept (Or.inl ended') recorded').mono
            · exact fun r u further => (moved.trans moves).trans further
            · exact fun e _ raised => (raised.after moves).after moved
        · exact fun e _ raised => raised.after moved

/-! ### `schedule` -/

omit [TupleHash] in
theorem recordLoras_spec [TupleHash] (s : Scheduler) (p : Pass) (first : p.requestedLoras = []) :
    wp (recordLoras p) (fun q t => s = t ∧ Moves s p s q ∧ (RunningOver s p → RunningOver s q) ∧
      (s.maxLoras ≠ none → s.runningLoras q ⊆ q.requestedLoras)) (fun e _ => RaisesAfter s p e) s := by
  unfold recordLoras
  rw [wp_bind, wp_get]
  split
  · rename_i uncounted
    exact ⟨rfl, Moves.refl s p, fun ended => ended, fun counted => absurd uncounted counted⟩
  · rename_i maxLoras counted
    rw [wp_bind, wp_check]
    exact ⟨fun _ => ⟨rfl, (Move.recordLoras first).moves, fun ended => ended, fun _ => List.Subset.refl _⟩,
      fun many => (Raises.loras counted (Nat.lt_of_not_le many)).now⟩

omit [TupleHash] in
theorem numCommonPrefixBlocks_spec (s : Scheduler) :
    wp numCommonPrefixBlocks (fun _ t => t = s) (fun e _ => Elsewhere e) s := by
  unfold numCommonPrefixBlocks
  rw [wp_bind, wp_get]
  split
  · rfl
  · unfold onKVCacheManager
    rw [wp_zoom]
    unfold KVCacheManager.getNumCommonPrefixBlocks
    rw [wp_bind, wp_check]
    refine ⟨fun _ => rfl, fun _ => ?_⟩
    show Elsewhere _
    decide

/-- What `schedule` returns and leaves behind, after its loops. -/
structure Scheduled (s : Scheduler) (p : Pass) (out : SchedulerOutput) (t : Scheduler) : Prop where
  output : ∃ numCommonPrefixBlocks, out = (putBack p s).output p numCommonPrefixBlocks
  state : t = (putBack p s).flush
  withinTokenBudget : p.numScheduledTokens.values.sum ≤ s.maxNumScheduledTokens

theorem schedule_spec (s : Scheduler) :
    wp schedule (fun out t => ∃ u p, Moves s s.startPass u p ∧ Scheduled u p out t)
      (fun e _ => RaisesAfter s s.startPass e) s := by
  unfold schedule
  rw [wp_bind, wp_get, wp_bind]
  apply (scheduleRunning_spec (Nat.le_add_left s.running.length 0)).mono _ fun _ _ raised => raised
  rintro p t ⟨moves, ended, loras⟩
  rw [wp_bind]
  apply (recordLoras_spec t p loras).mono _ fun e _ raised => raised.after moves
  rintro p' t' ⟨rfl, recorded, ended', counted⟩
  have soFar := moves.trans recorded
  rw [wp_bind]
  have second : wp (scheduleWaitingUnlessPreempted p') (fun q u => Moves t p' u q)
      (fun e _ => RaisesAfter t p' e) t := by
    unfold scheduleWaitingUnlessPreempted
    rw [wp_bind, wp_get, wp_ite]
    refine ⟨fun noPreemption => ?_, fun _ => Moves.refl t p'⟩
    apply scheduleWaiting_spec noPreemption _ counted
    rcases ended' ended with none | spent | preempted
    · exact Or.inl none
    · exact Or.inr spent
    · exact absurd noPreemption preempted
  apply second.mono _ fun e _ raised => raised.after soFar
  intro q u later
  have all := soFar.trans later
  rw [wp_bind, wp_modify, wp_bind]
  unfold checkPass
  rw [wp_bind, wp_get, wp_bind, wp_check]
  refine ⟨fun within => ?_, fun many => (Raises.tokenBudget (s := u) (Nat.lt_of_not_le many)).now.after all⟩
  rw [wp_bind, wp_check]
  refine ⟨fun _ => ?_, fun many => (Raises.maxNumSeqs (s := u) (Nat.lt_of_not_le many)).now.after all⟩
  rw [wp_check]
  refine ⟨fun _ => ?_, fun many => (Raises.scheduled (s := u) (Nat.lt_of_not_le many)).now.after all⟩
  rw [wp_bind]
  apply (numCommonPrefixBlocks_spec _).mono _ fun e _ raised => (Raises.elsewhere raised).now.after all
  rintro n _ rfl
  exact ⟨u, q, all, ⟨n, rfl⟩, rfl, within⟩

theorem schedule_ok {out : SchedulerOutput} {t : Scheduler} (call : schedule s = .ok out t) :
    ∃ u p, Moves s s.startPass u p ∧ Scheduled u p out t := (schedule_spec s).ok call

theorem schedule_error {t : Scheduler} (call : schedule s = .error e t) : RaisesAfter s s.startPass e :=
  (schedule_spec s).error call

/-! ### The loops end before their number of rounds does -/

end Scheduler
end Vllm.V1
