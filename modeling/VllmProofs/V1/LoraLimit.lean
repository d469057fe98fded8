import VllmProofs.V1.AllocateRaises
import VllmProofs.V1.Pipeline
import VllmProofs.V1.ScheduledBatch

/-!
How many adapters run together. A running request that is passed by is not counted when waiting
requests are admitted.
-/

namespace Vllm.V1
open Exec

variable {loras : List ℕ}

namespace Scheduler

variable {s t : Scheduler} {ref : RequestRef} {p p' : Pass} {maxLoras : ℕ}

/-- The distinct adapters of some requests. -/
def lorasOf (s : Scheduler) (refs : List RequestRef) : List ℕ :=
  (refs.filterMap fun ref => (s.objects ref).loraRequest).dedup

/-- The adapters of the requests in a batch that was scheduled just now. -/
def scheduledLoras (s : Scheduler) (out : SchedulerOutput) : List ℕ :=
  s.lorasOf (out.numScheduledTokens.keys.filterMap s.requests.get?)

theorem mem_lorasOf {refs : List RequestRef} {lora : ℕ} :
    lora ∈ s.lorasOf refs ↔ ∃ ref ∈ refs, (s.objects ref).loraRequest = some lora := by
  unfold lorasOf
  rw [List.mem_dedup, List.mem_filterMap]

theorem length_le_lorasOf {refs : List RequestRef} (nodup : loras.Nodup)
    (each : ∀ lora ∈ loras, ∃ ref ∈ refs, (s.objects ref).loraRequest = some lora) :
    loras.length ≤ (s.lorasOf refs).length :=
  (List.subperm_of_subset nodup fun lora member => mem_lorasOf.mpr (each lora member)).length_le

/-- The adapters of the running requests, scheduled or not, are not too many. -/
def LorasFit (maxLoras : ℕ) (s : Scheduler) : Prop := (s.lorasOf s.running).length ≤ maxLoras

theorem LorasFit.fewer (fit : s.LorasFit maxLoras) (running : ∀ ref ∈ t.running, ref ∈ s.running)
    (loras : ∀ ref ∈ s.running, (t.objects ref).loraRequest = (s.objects ref).loraRequest) : t.LorasFit maxLoras := by
  have fewer : (t.lorasOf t.running).length ≤ (s.lorasOf s.running).length := by
    apply length_le_lorasOf (List.nodup_dedup _)
    intro lora member
    obtain ⟨ref, runs, has⟩ := mem_lorasOf.mp member
    refine ⟨ref, running ref runs, ?_⟩
    rw [← loras ref (running ref runs)]
    exact has
  exact fewer.trans fit

variable [TupleHash]

/-- Whenever a call of `schedule` admits a waiting request, its adapter and those of all running
requests, scheduled in this step or not, are at most `maxLoras`. -/
def AdmitsWithin (maxLoras : ℕ) (s : Scheduler) : Prop :=
  ∀ u p, Moves s s.startPass u p → ∀ ref hits c n plan looked newBlocks manager,
    AdmitAttempt u p ref hits c n plan looked →
    KVCacheManager.allocateSlots (u.objects ref) plan.numNewTokens hits looked = .ok (some newBlocks) manager →
    (u.lorasOf (u.running ++ [ref])).length ≤ maxLoras

theorem LorasFit.move (fit : s.LorasFit maxLoras) (move : Move (s, p) (t, p'))
    (admits : ∀ ref hits c n plan looked newBlocks manager, AdmitAttempt s p ref hits c n plan looked →
      KVCacheManager.allocateSlots (s.objects ref) plan.numNewTokens hits looked = .ok (some newBlocks) manager →
      (s.lorasOf (s.running ++ [ref])).length ≤ maxLoras) : t.LorasFit maxLoras := by
  have loras : ∀ ref, (t.objects ref).loraRequest = (s.objects ref).loraRequest := fun ref =>
    (move.evolves ref).loraRequest
  cases move with
  | skip | recordLoras | setAside | lookup | run =>
    exact fit.fewer (fun ref member => member) fun ref _ => loras ref
  | wake =>
    apply fit.fewer
    · intro ref member
      rw [wake_running] at member
      exact member
    · exact fun ref _ => loras ref
  | preempt attempt lacks last freed =>
    apply fit.fewer
    · intro ref member
      rw [last]
      exact List.mem_append_left _ member
    · exact fun ref _ => loras ref
  | @admitRequest _ _ ref hits newBlocks c n plan looked manager attempt status got =>
    apply Nat.le_trans _ (admits ref hits c n plan looked newBlocks manager attempt got)
    apply length_le_lorasOf (List.nodup_dedup _)
    intro lora member
    obtain ⟨ref', runs, has⟩ := mem_lorasOf.mp member
    refine ⟨ref', runs, ?_⟩
    rw [← loras ref']
    exact has

theorem LorasFit.moves (fit : s.LorasFit maxLoras) (admits : s.AdmitsWithin maxLoras)
    (moves : Moves s s.startPass t p) : t.LorasFit maxLoras :=
  moves.invariant (I := fun u _ => u.LorasFit maxLoras) fit fun u q _ _ before fits move =>
    fits.move move (admits u q before)

omit [TupleHash] in
theorem runningLoras_within (fit : s.LorasFit maxLoras) (booked : Booked s p) :
    (s.runningLoras p).length ≤ maxLoras := by
  apply Nat.le_trans _ fit
  apply length_le_lorasOf (List.nodup_dedup _)
  intro lora member
  rw [List.mem_dedup, List.mem_filter, List.mem_filterMap] at member
  obtain ⟨⟨ref, scheduled, has⟩, -⟩ := member
  exact ⟨ref, booked.runs (List.mem_append_right _ scheduled), has⟩

theorem scheduledLoras_within {out : SchedulerOutput} (serving : s.Serving) (fit : s.LorasFit maxLoras)
    (admits : s.AdmitsWithin maxLoras) (call : schedule s = .ok out t) : (t.scheduledLoras out).length ≤ maxLoras := by
  obtain ⟨u, p, moves, scheduled⟩ := schedule_ok call
  obtain ⟨n, rfl⟩ := scheduled.output
  have queued := (serving.moves moves).queued
  have booked := booked_moves serving moves
  rw [scheduled.state]
  apply Nat.le_trans _ (fit.moves admits moves)
  apply length_le_lorasOf (List.nodup_dedup _)
  intro lora member
  obtain ⟨ref, known, has⟩ := mem_lorasOf.mp member
  obtain ⟨id, key, found⟩ := List.mem_filterMap.mp known
  obtain ⟨ref', given, named⟩ := (booked.ids id).mp key
  have runs := booked.runs given
  have same := (queued.known ref' (List.mem_append_left _ runs)).2
  have found' : u.requests.get? id = some ref := found
  change u.requests.get? (u.objects ref').requestId = some ref' at same
  rw [named, found', Option.some.injEq] at same
  rw [same] at has
  exact ⟨ref', runs, has⟩

theorem loras_of_raises (raises : Raises s p (.assertionError .atMostMaxLoras)) :
    ∃ maxLoras, s.maxLoras = some maxLoras ∧ maxLoras < (s.runningLoras p).length := by
  generalize same : (Raised.assertionError .atMostMaxLoras) = e at raises
  cases raises with
  | loras counted many => exact ⟨_, counted, many⟩
  | running attempt raised =>
    subst same
    exact absurd raised (KVCacheManager.allocateSlots_avoids (by decide) _ _ _ _ _)
  | waiting attempt raised =>
    subst same
    exact absurd raised (KVCacheManager.allocateSlots_avoids (by decide) _ _ _ _ _)
  | elsewhere elsewhere =>
    subst same
    exact absurd (by decide) elsewhere.foreign
  | nothingToRun | nothingToAdmit | tokenBudget | maxNumSeqs | scheduled => cases same

theorem schedule_avoids_loras (serving : s.Serving) (counted : s.maxLoras = some maxLoras)
    (fit : s.LorasFit maxLoras) (admits : s.AdmitsWithin maxLoras) (t : Scheduler) :
    schedule s ≠ .error (.assertionError .atMostMaxLoras) t := by
  intro raised
  obtain ⟨u, p, moves, raises⟩ := schedule_error raised
  obtain ⟨limit, limited, many⟩ := loras_of_raises raises
  rw [moves.later.maxLoras, counted, Option.some.injEq] at limited
  subst limited
  have within := runningLoras_within (fit.moves admits moves) (booked_moves serving moves)
  omega

theorem LorasFit.schedule {out : SchedulerOutput} (fit : s.LorasFit maxLoras) (admits : s.AdmitsWithin maxLoras)
    (call : schedule s = .ok out t) : t.LorasFit maxLoras := by
  obtain ⟨u, p, moves, scheduled⟩ := schedule_ok call
  rw [scheduled.state]
  exact (fit.moves admits moves).fewer (fun ref member => member) fun ref _ => rfl

omit [TupleHash] in
theorem LorasFit.between (serving : s.Serving) (fit : s.LorasFit maxLoras) (between : Between s t) :
    t.LorasFit maxLoras := by
  have remains := between.remains
  apply fit.fewer
  · exact fun ref member => remains.running.subset member
  · intro ref member
    have known := serving.queued.known ref (List.mem_append_left _ member)
    exact (remains.later.evolves ref known.1).loraRequest

omit [TupleHash] in
/-- No request uses an adapter other than these. -/
def UsesLoras (loras : List ℕ) (s : Scheduler) : Prop :=
  ∀ x ∈ s.requests.items, ∀ lora ∈ (s.objects x.2).loraRequest, lora ∈ loras

omit [TupleHash] in
instance decideUsesLoras (loras : List ℕ) (s : Scheduler) : Decidable (s.UsesLoras loras) := by
  unfold UsesLoras
  infer_instance

theorem admitsWithin_of_few (serving : s.Serving) (few : loras.length ≤ maxLoras)
    (uses : s.UsesLoras loras) : s.AdmitsWithin maxLoras := by
  intro u p moves ref _ _ _ _ _ _ _ attempt _
  apply Nat.le_trans _ few
  apply (List.subperm_of_subset (List.nodup_dedup _) _).length_le
  intro lora member
  obtain ⟨ref', among, has⟩ := mem_lorasOf.mp member
  have known : s.requests.get? (u.objects ref').requestId = some ref' := by
    rw [← moves.requests]
    refine ((serving.moves moves).queued.known ref' ?_).2
    rcases List.mem_append.mp among with runs | admitted
    · exact List.mem_append_left _ runs
    · rw [List.mem_singleton.mp admitted]
      exact List.mem_append_right _ attempt.toWaitingTurn.waits
  have same := moves.invariant
    (I := fun v _ => ∀ ref, (v.objects ref).loraRequest = (s.objects ref).loraRequest)
    (fun _ => rfl) fun _ _ _ _ _ before move ref => ((move.evolves ref).loraRequest).trans (before ref)
  exact uses _ (Dict.mem_items_iff.mpr known) lora ((same ref').symm.trans has)

end Scheduler

namespace Pipeline

section
variable [TupleHash] {config : SchedulerConfig} {history : List PipelineEvent} {e : Pipeline} {maxLoras : ℕ}

/-- A run in which the adapters of all running requests are counted whenever one is admitted. -/
abbrev ReachesWithinLoras (maxLoras : ℕ) (config : SchedulerConfig) (history : List PipelineEvent) (e : Pipeline) :
    Prop :=
  Run (fun e event e' => e.step event = some e' ∧ (event = .schedule → e.scheduler.AdmitsWithin maxLoras))
    (start config) history e

theorem ReachesWithinLoras.reaches (reached : ReachesWithinLoras maxLoras config history e) :
    Reaches config history e :=
  reached.mono fun _ _ _ stepped => stepped.1

theorem reachesWithinLoras_of_few (few : loras.length ≤ maxLoras)
    (run : Run (fun e event e' => e.step event = some e' ∧ e.scheduler.UsesLoras loras) (start config) history e) :
    ReachesWithinLoras maxLoras config history e := by
  induction run with
  | start => exact .start
  | call before stepped ih =>
    exact .call ih ⟨stepped.1, fun _ => Scheduler.admitsWithin_of_few (serving ih.reaches) few stepped.2⟩

theorem lorasFit (reached : ReachesWithinLoras maxLoras config history e) : e.scheduler.LorasFit maxLoras := by
  induction reached with
  | start => exact Nat.zero_le _
  | call before stepped ih =>
    have reaches := ReachesWithinLoras.reaches before
    rcases step_cases stepped.1 with ⟨rfl, out, t, call, rfl⟩ | ⟨-, between⟩
    · exact ih.schedule (stepped.2 rfl) call
    · exact ih.between (serving reaches) between

theorem maxLoras_of_reaches (reached : Reaches config history e) : e.scheduler.maxLoras = config.maxLoras := by
  induction reached with
  | start => rfl
  | call before stepped ih =>
    rcases step_cases stepped with ⟨-, out, t, call, rfl⟩ | ⟨-, between⟩
    · exact (Scheduler.later_schedule call).maxLoras.trans ih
    · exact between.remains.later.maxLoras.trans ih

/-- In such a run every `schedule` passes the assertion about adapters, and schedules at most that many. -/
theorem schedule_within_loras (reached : ReachesWithinLoras maxLoras config history e)
    (counted : config.maxLoras = some maxLoras) (admits : e.scheduler.AdmitsWithin maxLoras) :
    (∀ t, Scheduler.schedule e.scheduler ≠ .error (.assertionError .atMostMaxLoras) t) ∧
      ∀ out t, Scheduler.schedule e.scheduler = .ok out t → (t.scheduledLoras out).length ≤ maxLoras := by
  have serves := serving reached.reaches
  have fit := lorasFit reached
  constructor
  · exact Scheduler.schedule_avoids_loras serves ((maxLoras_of_reaches reached.reaches).trans counted) fit admits
  · exact fun out t call => Scheduler.scheduledLoras_within serves fit admits call

end

section
attribute [local instance] sumHash

def oneLora : SchedulerConfig where
  blockSize := 4
  numGpuBlocks := 8
  maxModelLen := 32
  enableCaching := false
  blocksHaveSlots := CacheConfig.four_pos
  someBlocks := CacheConfig.eight_pos
  maxNumSeqs := 4
  maxNumBatchedTokens := 4
  maxLoras := some 1

def withLora (requestId : RequestId) (lora : ℕ) : Request where
  requestId
  samplingParams := { maxTokens := 4 }
  loraRequest := some lora
  promptTokenIds := [1, 2, 3, 4, 5, 6]

def chunkOf (requestId : RequestId) : ModelRunnerOutput where
  reqIdToIndex := Dict.empty.insert requestId 0
  sampledTokenIds := [[7]]

/-- The second adapter is admitted while the first request is in a batch. -/
def bothAdapters : List PipelineEvent :=
  [.update (chunkOf 1), .update (chunkOf 0), .schedule, .add (withLora 1 2), .schedule, .add (withLora 0 1)]

theorem schedule_within_loras_bothAdapters : ∃ e,
    ReachesWithinLoras 2 { oneLora with maxLoras := some 2 } bothAdapters e ∧
    e.scheduler.lorasOf e.scheduler.running = [1, 2] ∧
    (∀ t, Scheduler.schedule e.scheduler ≠ .error (.assertionError .atMostMaxLoras) t) ∧
      ∀ out t, Scheduler.schedule e.scheduler = .ok out t → (t.scheduledLoras out).length ≤ 2 := by
  obtain ⟨e, run, running, uses⟩ := Run.exists_of_execute
    (s := start { oneLora with maxLoras := some 2 }) (h := bothAdapters)
    (f := fun e event => if e.scheduler.UsesLoras [1, 2] then e.step event else none)
    (P := fun e => e.scheduler.lorasOf e.scheduler.running = [1, 2] ∧ e.scheduler.UsesLoras [1, 2])
    (by decide +kernel)
  have used : Run (fun e event e' => e.step event = some e' ∧ e.scheduler.UsesLoras [1, 2]) _ _ e :=
    run.mono fun t event u stepped => by
      split at stepped
      · exact ⟨stepped, by assumption⟩
      · cases stepped
  have reached := reachesWithinLoras_of_few (show _ ≤ 2 from le_refl _) used
  exact ⟨e, reached, running, schedule_within_loras reached rfl
    (Scheduler.admitsWithin_of_few (serving reached.reaches) (le_refl _) uses)⟩

/-- The first request is passed by while it is in a batch, and its adapter is not counted. -/
theorem lora_of_batch_uncounted : ∃ e, Reaches oneLora [.update (chunkOf 1), .update (chunkOf 0), .schedule,
    .add (withLora 1 2), .schedule, .add (withLora 0 1)] e ∧
      raised? Scheduler.schedule e.scheduler = some (.assertionError .atMostMaxLoras) :=
  Run.exists_of_execute (by decide +kernel)

end

end Pipeline
end Vllm.V1
