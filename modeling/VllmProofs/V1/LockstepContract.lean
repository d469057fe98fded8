import VllmProofs.V1.ArrivalOrder
import VllmProofs.V1.Pipeline
import VllmProofs.V1.SchedulerHashes
import VllmProofs.V1.TokenProgress
import VllmProofs.V1.UnfinishedRequests

/-!
What the assertions of the scheduler rest on, in a run without a batch queue: unfinished requests are
queued once, running ones are behind, and the budgets are kept. With prefix caching this needs that the
hashes of a request are those of its tokens, which they are as long as nobody is given tokens that end
before its drafts would begin.
-/

namespace Vllm.V1
open Exec

namespace Scheduler

variable {s t : Scheduler} {ref : RequestRef} {p p' : Pass}

def SameKV (s t : Scheduler) : Prop := KVCacheManager.SameConfig s.kvCacheManager t.kvCacheManager

theorem SameKV.refl (s : Scheduler) : SameKV s s := KVCacheManager.SameConfig.refl _

theorem SameKV.trans {u : Scheduler} (first : SameKV s t) (second : SameKV t u) : SameKV s u :=
  KVCacheManager.SameConfig.trans first second

theorem sameKV_freeRequest {request : Request} {freed manager : KVCacheManager} {u v : Unit} (sound : s.kvCacheManager.Sound)
    (free : KVCacheManager.free request s.kvCacheManager = .ok u freed)
    (drop : KVCacheManager.freeBlockHashes request freed = .ok v manager) (kv : t.kvCacheManager = manager) :
    SameKV s t := by
  obtain ⟨unchanged, -⟩ := KVCacheManager.freeBlockHashes_ok drop
  have config : KVCacheManager.SameConfig freed manager := by
    rw [unchanged]
    exact ⟨rfl, rfl, rfl, rfl, rfl⟩
  unfold SameKV
  rw [kv]
  exact (KVCacheManager.free_ok sound free).config.trans config

variable {finishedStatus : RequestStatus}

theorem sameKV_finishRequest {id : RequestId} {u : Unit} (serving : s.Serving)
    (call : finishRequest finishedStatus id s = .ok u t) : SameKV s t := by
  rcases finishRequest_ok call with ⟨-, rfl⟩ | ⟨ref, dequeued, -, left, -, -, freed, manager, free, drop, rfl⟩
  · exact SameKV.refl _
  · cases left with
    | running | waiting => exact sameKV_freeRequest serving.holding.sound free drop rfl

theorem sameKV_finishEach {ids : List RequestId} {u : PUnit} (serving : s.Serving)
    (call : ids.forM (finishRequest finishedStatus) s = .ok u t) : SameKV s t := by
  induction ids generalizing s with
  | nil =>
    cases call
    exact SameKV.refl _
  | cons id rest ih =>
    obtain ⟨_, v, first, others⟩ := bind_ok call
    exact (sameKV_finishRequest serving first).trans (ih (serving.finishRequest first) others)

theorem sameKV_updateRequest {out : SchedulerOutput} {result : ModelRunnerOutput} {sent : Option EngineCoreOutput}
    {stopped : Bool} (sound : s.kvCacheManager.Sound) (call : updateRequest out result ref s = .ok (sent, stopped) t) :
    SameKV s t := by
  rcases updateRequest_ok call with ⟨-, -, rfl⟩ | ⟨n, gen, new, request, -, -, updated⟩
  · exact SameKV.refl _
  · rcases updated.state with ⟨-, rfl⟩ | ⟨-, v, ⟨-, -, freed, manager, free, drop, rfl⟩, rfl⟩
    · exact SameKV.refl _
    · exact sameKV_freeRequest (s := s) sound free drop rfl

theorem sameKV_between (serving : s.Serving) (between : Between s t) : SameKV s t := by
  cases between with
  | add | grammarReady => exact SameKV.refl _
  | finish call =>
    unfold finishRequests at call
    obtain ⟨_, _, checked, call⟩ := bind_ok call
    obtain ⟨-, rfl⟩ := check_ok checked
    exact sameKV_finishEach serving call
  | resetPrefixCache call =>
    obtain ⟨manager, inner, rfl⟩ := zoom_ok call
    exact (KVCacheManager.resetPrefixCache_ok serving.holding.sound inner).config
  | @update out result outputs t call =>
    unfold updateFromOutput at call
    rw [get_bind] at call
    obtain ⟨found, v, updates, call⟩ := bind_ok call
    obtain ⟨sent, newRunning⟩ := found
    cases call
    have start : (s.setRunning ([] ++ s.running)).Serving ∧ SameKV s s := ⟨serving, SameKV.refl s⟩
    have after := updateEach_invariant (I := fun kept rest v => (v.setRunning (kept ++ rest)).Serving ∧ SameKV s v)
      (fun _ _ _ _ _ _ _ before updated => ⟨before.1.updateRequest updated,
        before.2.trans (sameKV_updateRequest before.1.holding.sound updated)⟩) start updates
    exact after.2

variable [TupleHash]

theorem sameKV_move (serving : (putBack p s).Serving) (move : Move (s, p) (t, p')) : SameKV s t := by
  obtain ⟨-, holding⟩ := serving
  have sound : s.kvCacheManager.Sound := holding.sound
  cases move with
  | skip | recordLoras | setAside => exact SameKV.refl _
  | wake =>
    unfold Scheduler.wake
    split <;> exact SameKV.refl _
  | preempt attempt lacks last freed => exact (KVCacheManager.free_ok sound freed).config
  | run attempt got => exact (KVCacheManager.allocateSlots_ok sound (by simp) got).config
  | @lookup _ _ ref found manager turn lora looked =>
    obtain ⟨-, lookedUp⟩ := KVCacheManager.getComputedBlocks_ok sound looked
    exact (sound_of_unchanged sound lookedUp).2.1
  | admitRequest attempt status got =>
    have prepared := attempt.prepared sound holding.blockSize
    obtain ⟨all, k, -, lookedUp⟩ := prepared.found
    obtain ⟨sound', config, -⟩ := sound_of_unchanged sound lookedUp
    exact config.trans (KVCacheManager.allocateSlots_ok sound' (prepared.hitsOf.inside sound') got).config

theorem sameKV_moves (serving : s.Serving) (moves : Moves s s.startPass t p) : SameKV s t :=
  moves.invariant (I := fun u _ => SameKV s u) (SameKV.refl s) fun _ _ _ _ before same move =>
    same.trans (sameKV_move (serving.moves before) move)

theorem sameKV_schedule {out : SchedulerOutput} (serving : s.Serving) (call : schedule s = .ok out t) :
    SameKV s t := by
  obtain ⟨u, p, moves, scheduled⟩ := schedule_ok call
  have same := sameKV_moves serving moves
  rw [scheduled.state]
  exact same

end Scheduler
end Vllm.V1

namespace Vllm.V1
open Exec

namespace Scheduler

variable {s t : Scheduler} {ref : RequestRef} {p : Pass} {e : Raised}

/-- Every assertion of `schedule` but the one about adapters. -/
def budgetAssertions : List Assertion := [.numNewTokensPositive, .withinTokenBudget, .withinMaxNumSeqs, .scheduledAreRunning]

variable {assertion : Assertion}

theorem own_of_budget (member : assertion ∈ budgetAssertions) :
    Raised.assertionError assertion ∈ ownAssertions ∧ assertion ≠ .atMostMaxLoras := by
  revert assertion
  decide

variable [TupleHash]

/-- With prefix caching, whoever is given tokens has no more drafts than tokens that are computed or given. -/
def CoversWhenCaching (s : Scheduler) : Prop := s.kvCacheManager.enableCaching = true → s.CoversDrafts

def HashedWhenCaching (s : Scheduler) : Prop := s.kvCacheManager.enableCaching = true → s.Hashing

theorem HashedWhenCaching.moves (serving : s.Serving) (hashed : s.HashedWhenCaching) (covers : s.CoversWhenCaching)
    (moves : Moves s s.startPass t p) : t.HashedWhenCaching := by
  intro caching
  rw [(sameKV_moves serving moves).enableCaching] at caching
  exact (hashed caching).moves serving (covers caching) moves

theorem HashedWhenCaching.schedule {out : SchedulerOutput} (serving : s.Serving) (hashed : s.HashedWhenCaching)
    (covers : s.CoversWhenCaching) (call : schedule s = .ok out t) : t.HashedWhenCaching := by
  intro caching
  rw [(sameKV_schedule serving call).enableCaching] at caching
  exact (hashed caching).schedule serving (covers caching) call

theorem HashedWhenCaching.between (serving : s.Serving) (hashed : s.HashedWhenCaching) (between : Between s t) :
    t.HashedWhenCaching := by
  intro caching
  rw [(sameKV_between serving between).enableCaching] at caching
  exact (hashed caching).between serving between

omit [TupleHash] in
theorem hitsToUse_uncached {found : List BlockId × ℕ} {hits : List BlockId} {c left : ℕ} {looked : KVCacheManager}
    {u v : Scheduler} [TupleHash] (off : s.kvCacheManager.enableCaching = false) (some : 0 < (s.objects ref).numTokens)
    (lookup : KVCacheManager.getComputedBlocks (s.objects ref) s.kvCacheManager = .ok found looked)
    (used : hitsToUse (s.objects ref) s.blockSize found u = .ok (hits, c, left) v) : 0 < left := by
  unfold KVCacheManager.getComputedBlocks at lookup
  rw [get_bind, if_pos off] at lookup
  cases lookup
  unfold hitsToUse at used
  rw [if_neg (Nat.ne_of_gt some)] at used
  cases used
  exact some

/-- No assertion of `schedule` about budgets fails when its loops have come to `p`. -/
theorem not_raises (member : assertion ∈ budgetAssertions) (serving : (putBack p s).Serving)
    (booked : Booked s p) (progress : Progress s p) (hashed : s.HashedWhenCaching) :
    ¬Raises s p (.assertionError assertion) := by
  intro raises
  obtain ⟨own, noLoras⟩ := own_of_budget member
  generalize same : Raised.assertionError assertion = e at raises
  cases raises with
  | running attempt raised =>
    rw [← same] at raised
    exact KVCacheManager.allocateSlots_avoids own _ _ _ _ _ raised
  | waiting attempt raised =>
    rw [← same] at raised
    exact KVCacheManager.allocateSlots_avoids own _ _ _ _ _ raised
  | elsewhere elsewhere =>
    rw [← same] at elsewhere
    exact elsewhere.foreign own
  | loras =>
    cases same
    exact noLoras rfl
  | @nothingToRun ref at_ budget idle none =>
    have behind := progress.behind ref (List.mem_of_getElem? at_)
    unfold numNewRunning at none
    unfold Request.IsBehind at behind
    omega
  | @nothingToAdmit ref found hits c left looked u turn lookup used none =>
    have some : 0 < left := by
      cases caching : s.kvCacheManager.enableCaching with
      | false =>
        have fits := serving.queued.fits ref (List.mem_append_right _ turn.waits)
        exact hitsToUse_uncached caching fits.1 lookup used
      | true => exact hitsToUse_left serving (hashed caching) turn lookup used
    omega
  | tokenBudget many =>
    have budget := booked.budget
    omega
  | maxNumSeqs many =>
    have room := progress.room
    omega
  | scheduled many =>
    have within := booked.withinRunning
    unfold Pass.scheduledRefs at within
    simp only [List.length_append] at within
    omega

theorem schedule_avoids (member : assertion ∈ budgetAssertions) (serving : s.Serving)
    (going : s.Going) (hashed : s.HashedWhenCaching) (covers : s.CoversWhenCaching) (t : Scheduler) :
    schedule s ≠ .error (.assertionError assertion) t := by
  intro raised
  obtain ⟨u, p, moves, raises⟩ := schedule_error raised
  exact not_raises member (serving.moves moves) (booked_moves serving moves) (going.moves serving moves)
    (hashed.moves serving covers moves) raises

omit [TupleHash] in
def AtMostOneDraft (s : Scheduler) : Prop := ∀ x ∈ s.requests.items, (s.objects x.2).specTokenIds.length ≤ 1

omit [TupleHash] in
instance decideAtMostOneDraft (s : Scheduler) : Decidable s.AtMostOneDraft := by
  unfold AtMostOneDraft
  infer_instance

/-- Drafts are cut off, and never added, while requests are scheduled. -/
theorem drafts_move (move : Move (s, p) (t, p')) (ref : RequestRef) :
    (t.objects ref).specTokenIds.length ≤ (s.objects ref).specTokenIds.length := by
  have updated (ref' : RequestRef) (request : Request)
      (fewer : request.specTokenIds.length ≤ (s.objects ref').specTokenIds.length) :
      (Function.update s.objects ref' request ref).specTokenIds.length ≤ (s.objects ref).specTokenIds.length := by
    rw [Function.update_apply]
    split
    · rename_i here
      rw [here]
      exact fewer
    · exact le_refl _
  cases move with
  | skip | recordLoras | setAside | lookup => exact le_refl _
  | wake =>
    unfold wake
    split
    · exact updated _ _ (le_refl _)
    · exact le_refl _
  | preempt | admitRequest => exact updated _ _ (le_refl _)
  | @run _ _ ref plan =>
    refine updated _ _ ?_
    show ((s.objects ref).trimmedSpecTokenIds plan.numNewTokens).length ≤ _
    unfold Request.trimmedSpecTokenIds
    split
    · exact List.length_take_le' _ _
    · exact le_refl _

theorem coversDrafts_of_few (serving : s.Serving) (few : s.AtMostOneDraft) : s.CoversDrafts := by
  intro u p moves ref c n gives
  have fewer := moves.invariant
    (I := fun v _ => ∀ ref, (v.objects ref).specTokenIds.length ≤ (s.objects ref).specTokenIds.length)
    (fun _ => le_refl _) fun _ _ _ _ _ before move ref => (drafts_move move ref).trans (before ref)
  obtain ⟨member, tokens⟩ : ref ∈ u.running ++ (putBack p u).waiting ∧ n ≠ 0 := by
    cases gives with
    | running attempt got => exact ⟨List.mem_append_left _ attempt.running, attempt.tokens⟩
    | waiting attempt got => exact ⟨List.mem_append_right _ attempt.toWaitingTurn.waits, attempt.tokens⟩
  have known := ((serving.moves moves).queued.known ref member).2
  change u.requests.get? _ = some ref at known
  rw [moves.requests] at known
  have one := (fewer ref).trans (few _ (Dict.mem_items_iff.mpr known))
  omega

end Scheduler

namespace Lockstep

section
variable [TupleHash] {config : SchedulerConfig} {history : List LockstepEvent} {e : Lockstep}

/-- A run in which nobody is given tokens that end before its drafts would begin. -/
abbrev ReachesCovered (config : SchedulerConfig) (history : List LockstepEvent) (e : Lockstep) : Prop :=
  Run (fun e event e' => e.step event = some e' ∧ (event = .schedule → e.scheduler.CoversWhenCaching))
    (start config) history e

structure Invariant (e : Lockstep) : Prop where
  serving : e.scheduler.Serving
  accounted : e.scheduler.Accounted
  going : e.scheduler.Going
  pending : ∀ out, e.batch = some out → e.scheduler.Pending out
  hashed : e.scheduler.HashedWhenCaching
  ordered : e.scheduler.Ordered

theorem invariant_start (config : SchedulerConfig) : Invariant (start config) where
  serving := Scheduler.serving_init config
  accounted := nofun
  going := ⟨nofun, Nat.zero_le _⟩
  pending := nofun
  hashed := fun _ => Scheduler.hashing_init config
  ordered := Scheduler.ordered_init config

theorem Invariant.step {e' : Lockstep} {event : LockstepEvent} (invariant : Invariant e)
    (step : e.step event = some e') (covers : event = .schedule → e.scheduler.CoversWhenCaching) : Invariant e' := by
  obtain ⟨serving, accounted, going, pending, hashed, ordered⟩ := invariant
  cases stepped step with
  | idle => exact ⟨serving, accounted, going, pending, hashed, ordered⟩
  | @schedule out t free call =>
    obtain ⟨going', pending'⟩ := going.schedule serving call
    refine ⟨serving.schedule call, accounted.schedule serving call, going', ?_,
      hashed.schedule serving (covers rfl) call, (ordered.schedule call).1⟩
    intro out' batch
    unfold scheduled at batch
    dsimp only at batch
    split at batch
    · cases batch
      exact pending'
    · cases batch
  | quiet free call =>
    have between := call.between
    refine ⟨serving.between between, accounted.between serving between, going.quiet serving call, ?_,
      hashed.between serving between, ordered.between serving between⟩
    intro out batch
    rw [free] at batch
    cases batch
  | @update out result outputs t batch counts call =>
    have between := Scheduler.Between.update call
    exact ⟨serving.between between, accounted.between serving between, going.update serving (pending out batch) counts call,
      nofun, hashed.between serving between, ordered.between serving between⟩

theorem invariant (reached : ReachesCovered config history e) : Invariant e := by
  induction reached with
  | start => exact invariant_start config
  | call _ stepped ih => exact ih.step stepped.1 stepped.2

theorem reachesCovered_of_few
    (run : Run (fun e event e' => e.step event = some e' ∧ e.scheduler.AtMostOneDraft) (start config) history e) :
    ReachesCovered config history e := by
  induction run with
  | start => exact .start
  | call before stepped ih =>
    exact .call ih ⟨stepped.1, fun _ _ => Scheduler.coversDrafts_of_few (invariant ih).serving stepped.2⟩

/-- What the scheduler promises, and its assertions state. -/
structure Contract (e : Lockstep) : Prop where
  /-- An unfinished request is queued exactly once, -/
  once : ∀ ref < e.scheduler.numObjects, (e.scheduler.objects ref).isFinished = false →
    (e.scheduler.running ++ e.scheduler.waiting).count ref = 1
  /-- and a finished one is not. -/
  unfinished : ∀ ref ∈ e.scheduler.running ++ e.scheduler.waiting, (e.scheduler.objects ref).isFinished = false
  /-- A request that runs when `schedule` starts has tokens left. -/
  behind : e.batch = none → ∀ ref ∈ e.scheduler.running, (e.scheduler.objects ref).IsBehind
  budgets : e.batch = none → e.scheduler.CoversWhenCaching → ∀ assertion ∈ Scheduler.budgetAssertions, ∀ t,
    Scheduler.schedule e.scheduler ≠ .error (.assertionError assertion) t
  within : ∀ out result, e.batch = some out → result.Counts out → ∀ t,
    Scheduler.updateFromOutput out result e.scheduler ≠ .error (.assertionError .computedWithinTokens) t
  arrival : e.scheduler.queue.Pairwise (· < ·)

theorem Invariant.unfinished (invariant : Invariant e) {ref : RequestRef}
    (member : ref ∈ e.scheduler.running ++ e.scheduler.waiting) : (e.scheduler.objects ref).isFinished = false := by
  have queued := invariant.serving.queued
  unfold Request.isFinished
  rcases List.mem_append.mp member with runs | waits
  · rw [queued.runs ref runs]
    rfl
  · rcases (queued.waits ref waits).status with status | status | status
    all_goals
      rw [status]
      rfl

/-- The scheduler keeps its contract in a run in which nobody is given tokens that end before its drafts
would begin. -/
theorem contract_of_covered (reached : ReachesCovered config history e) : Contract e := by
  have kept := invariant reached
  constructor
  · intro ref less unfinished
    have queued := kept.serving.queued
    have known := kept.accounted ref less unfinished
    exact List.count_eq_one_of_mem queued.nodup (queued.queued _ ref known).1
  · exact fun ref member => kept.unfinished member
  · exact fun _ => kept.going.behind
  · intro _ covers assertion member t
    exact Scheduler.schedule_avoids member kept.serving kept.going kept.hashed covers t
  · intro out result batch counts t
    exact Scheduler.update_avoids_overrun kept.serving kept.going (kept.pending out batch) counts t
  · exact kept.ordered.ordered

end

/-! ### Many drafts, and few tokens to give -/

section
attribute [local instance] sumHash

def manyDrafts : SchedulerConfig where
  blockSize := 4
  numGpuBlocks := 28
  maxModelLen := 64
  enableCaching := true
  blocksHaveSlots := CacheConfig.four_pos
  numPreallocateTokens := 64
  maxNumSeqs := 4
  maxNumBatchedTokens := 40

def draftedRequest (requestId : RequestId) (promptTokenIds : List TokenId) : Request where
  requestId
  samplingParams := { maxTokens := 60 }
  promptTokenIds

/-- One token for each of two requests, and so many drafts for the next step. -/
def drafting (first second : ℕ) : ModelRunnerOutput where
  reqIdToIndex := (Dict.empty.insert 0 0).insert 1 1
  sampledTokenIds := [[50], [60]]
  specTokenIds := some [List.replicate first 70, List.replicate second 80]

/-- Two requests, each with a draft that is scheduled and rejected, and one for the next step. -/
def oneDraftEach : List LockstepEvent :=
  [.update (drafting 1 1), .schedule, .update (drafting 1 1), .schedule,
    .add (draftedRequest 1 [200]), .add (draftedRequest 0 [100])]

theorem contract_oneDraftEach : ∃ e, ReachesCovered manyDrafts oneDraftEach e ∧ e.batch.isNone ∧
    ([0, 1].map fun ref => (e.scheduler.objects ref).specTokenIds) = [[70], [80]] ∧ Contract e := by
  obtain ⟨e, run, between, drafts⟩ := Run.exists_of_execute (s := start manyDrafts) (h := oneDraftEach)
    (f := fun e event => if e.scheduler.AtMostOneDraft then e.step event else none)
    (P := fun e => e.batch.isNone ∧
      ([0, 1].map fun ref => (e.scheduler.objects ref).specTokenIds) = [[70], [80]]) (by decide +kernel)
  have reached := reachesCovered_of_few (run.mono fun t event u stepped => by
    split at stepped
    · exact ⟨stepped, by assumption⟩
    · cases stepped)
  exact ⟨e, reached, between, drafts, contract_of_covered reached⟩

/-- The second request is given fewer tokens than its drafts twice, and counts hashes that it does not
have. Preempted, it finds more blocks than it has tokens for. -/
theorem drafts_beyond_tokens : ∃ e, Reaches manyDrafts [.update (drafting 0 0), .schedule, .update (drafting 0 46), .schedule,
    .update (drafting 38 20), .schedule, .update (drafting 38 46), .schedule,
    .add (draftedRequest 1 [1, 2, 3, 4, 5, 6, 7, 8, 9, 10, 11, 12, 13, 14, 15, 16]), .add (draftedRequest 0 [100])] e ∧
      raised? Scheduler.schedule e.scheduler = some (.assertionError .numNewTokensPositive) :=
  Run.exists_of_execute (by decide +kernel)

end

end Lockstep
end Vllm.V1
