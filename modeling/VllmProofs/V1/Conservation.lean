import VllmProofs.V1.ArrivalOrder
import VllmProofs.V1.LoraLimit
import VllmProofs.V1.UnfinishedRequests

/-!
With batches in flight, and requests added, aborted and preempted meanwhile, the scheduler neither loses
a request nor leaks a block.
-/

namespace Vllm.V1
open Exec

namespace Scheduler

variable {s : Scheduler} {ref : RequestRef}

def getNumUnfinishedRequests (s : Scheduler) : ℕ := s.waiting.length + s.running.length

def blocksAt (s : Scheduler) (ref : RequestRef) : List BlockId :=
  s.kvCacheManager.blocksOf (s.objects ref).requestId

/-- The requests and their blocks between two calls. -/
structure Conserves (s : Scheduler) : Prop where
  /-- A request is queued once, until it is finished. -/
  once : ∀ ref < s.numObjects,
    (s.running ++ s.waiting).count ref = if (s.objects ref).isFinished then 0 else 1
  known : ∀ id ref, s.requests.get? id = some ref ↔
    ref < s.numObjects ∧ (s.objects ref).isFinished = false ∧ (s.objects ref).requestId = id
  unfinished : s.getNumUnfinishedRequests =
    (List.range s.numObjects).countP fun ref => !(s.objects ref).isFinished
  /-- Only running requests hold a block, each as often as it lists it. -/
  refCnt : ∀ b, (s.kvCacheManager.blockPool.block b).refCnt =
    ((s.running.map fun ref => (s.blocksAt ref).count b).sum : ℕ)
  /-- The other blocks are free. -/
  free : ∀ b, (s.kvCacheManager.blockPool.freeBlockQueue.getAllFreeBlocks
    s.kvCacheManager.blockPool.numGpuBlocks).count b =
      if b < s.kvCacheManager.blockPool.numGpuBlocks ∧ ∀ ref ∈ s.running, b ∉ s.blocksAt ref then 1 else 0
  /-- A block is found under its hash, and under no other. -/
  hashed : ∀ b h, s.kvCacheManager.blockPool.hashOf b = some h ↔ s.kvCacheManager.blockPool.entry h b = some ()
  /-- Without structured output the queues are in the order of arrival. -/
  arrival : s.queue.Pairwise (· < ·)

theorem Queued.isFinished (queued : s.Queued) (member : ref ∈ s.running ++ s.waiting) :
    (s.objects ref).isFinished = false := by
  unfold Request.isFinished
  rcases List.mem_append.mp member with runs | waits
  · rw [queued.runs ref runs]
    rfl
  · rcases (queued.waits ref waits).status with status | status | status
    all_goals
      rw [status]
      rfl

theorem Queued.mem_iff (queued : s.Queued) (accounted : s.Accounted) :
    ref ∈ s.running ++ s.waiting ↔ ref < s.numObjects ∧ (s.objects ref).isFinished = false := by
  constructor
  · exact fun member => ⟨(queued.known ref member).1, queued.isFinished member⟩
  · rintro ⟨less, unfinished⟩
    exact (queued.queued _ ref (accounted ref less unfinished)).1

theorem Queued.unfinished (queued : s.Queued) (accounted : s.Accounted) : s.getNumUnfinishedRequests =
    (List.range s.numObjects).countP fun ref => !(s.objects ref).isFinished := by
  have perm : (s.running ++ s.waiting).Perm
      ((List.range s.numObjects).filter fun ref => !(s.objects ref).isFinished) := by
    refine (List.perm_ext_iff_of_nodup queued.nodup (List.nodup_range.filter _)).mpr fun ref => ?_
    rw [queued.mem_iff accounted, List.mem_filter, List.mem_range, Bool.not_eq_true']
  rw [List.countP_eq_length_filter, ← perm.length_eq, List.length_append]
  exact Nat.add_comm _ _

theorem Serving.held (serving : s.Serving) (b : BlockId) :
    s.kvCacheManager.held b = (s.running.map fun ref => (s.blocksAt ref).count b).sum := by
  have distinct : s.runningIds.Nodup :=
    (List.nodup_append.mp serving.queued.nodup).1.map_on fun ref runs ref' runs' same =>
      serving.queued.unique (List.mem_append_left _ runs) (List.mem_append_left _ runs') same
  have idle : ∀ id blocks, s.kvCacheManager.reqToBlocks.get? id = some blocks → id ∉ s.runningIds →
      blocks.count b = 0 := by
    intro id blocks found outside
    have none := (serving.holding.idle id outside).1
    unfold KVCacheManager.blocksOf at none
    rw [found] at none
    rw [show blocks = [] from none]
    rfl
  unfold KVCacheManager.held
  rw [Dict.sum_eq_sum_keys distinct idle, runningIds, List.map_map]
  refine congrArg List.sum (List.map_congr_left fun ref _ => ?_)
  unfold blocksAt KVCacheManager.blocksOf
  rw [Function.comp_apply]
  cases s.kvCacheManager.reqToBlocks.get? (s.objects ref).requestId <;> rfl

theorem Serving.kept (serving : s.Serving) (accounted : s.Accounted) (ordered : s.Ordered) : s.Conserves where
  once ref less := by
    have mem := @Queued.mem_iff s ref serving.queued accounted
    rw [serving.queued.nodup.count]
    cases finished : (s.objects ref).isFinished <;> simp [mem, finished, less]
  known id ref := by
    constructor
    · intro found
      obtain ⟨member, named⟩ := serving.queued.queued id ref found
      obtain ⟨less, unfinished⟩ := (serving.queued.mem_iff accounted).mp member
      exact ⟨less, unfinished, named⟩
    · rintro ⟨less, unfinished, rfl⟩
      exact accounted ref less unfinished
  unfinished := serving.queued.unfinished accounted
  refCnt b := by
    rw [← serving.held]
    exact serving.holding.sound.pool.refCnt b
  free b := by
    rw [serving.holding.sound.pool.count_free]
    simp [serving.held, List.sum_eq_zero_iff, List.count_eq_zero]
  hashed := serving.holding.sound.pool.indexed.hashed
  arrival := ordered.ordered

/-- Nobody touches the status and the tokens of a request that is finished. -/
def Stays (ref : RequestRef) (s t : Scheduler) : Prop :=
  (s.objects ref).isFinished = true → (t.objects ref).status = (s.objects ref).status ∧
    (t.objects ref).outputTokenIds = (s.objects ref).outputTokenIds

theorem Stays.of_same (same : (s.objects ref).isFinished = true → t.objects ref = s.objects ref) : Stays ref s t :=
  fun finished => same finished ▸ ⟨rfl, rfl⟩

theorem Queued.same {ref' : RequestRef} {request : Request} (queued : s.Queued)
    (member : ref' ∈ s.running ++ s.waiting) (finished : (s.objects ref).isFinished = true) :
    Function.update s.objects ref' request ref = s.objects ref := by
  apply Function.update_of_ne
  rintro rfl
  rw [queued.isFinished member] at finished
  cases finished

theorem same_finishEach {ids : List RequestId} {finishedStatus : RequestStatus} {u : PUnit} (serving : s.Serving)
    (finished : (s.objects ref).isFinished = true) (call : ids.forM (finishRequest finishedStatus) s = .ok u t) :
    t.objects ref = s.objects ref := by
  induction ids generalizing s with
  | nil =>
    cases call
    rfl
  | cons id rest ih =>
    obtain ⟨_, v, first, others⟩ := bind_ok call
    have same : v.objects ref = s.objects ref := by
      rcases finishRequest_ok first with ⟨-, rfl⟩ | ⟨ref', dequeued, found, left, -, -, freed, manager, -, -, rfl⟩
      · rfl
      · have member := (serving.queued.queued id ref' found).1
        cases left with
        | running | waiting => exact serving.queued.same member finished
    exact (ih (serving.finishRequest first) (same ▸ finished) others).trans same

theorem stays_between (serving : s.Serving) (less : ref < s.numObjects) (between : Between s t) : Stays ref s t := by
  cases between with
  | add unused new =>
    apply Stays.of_same
    intro
    rw [addRequest_objects, setRequest_objects, Function.update_of_ne (Nat.ne_of_lt less)]
  | finish call =>
    unfold finishRequests at call
    obtain ⟨_, _, checked, call⟩ := bind_ok call
    obtain ⟨-, rfl⟩ := check_ok checked
    exact Stays.of_same fun finished => same_finishEach serving finished call
  | grammarReady ref' =>
    intro
    show (Function.update s.objects ref' { s.objects ref' with grammarIsReady := true } ref).status = _ ∧
      (Function.update s.objects ref' { s.objects ref' with grammarIsReady := true } ref).outputTokenIds = _
    rw [Function.update_apply]
    split
    · rename_i here
      rw [here]
      exact ⟨rfl, rfl⟩
    · exact ⟨rfl, rfl⟩
  | resetPrefixCache call =>
    obtain ⟨manager, -, rfl⟩ := zoom_ok call
    exact Stays.of_same fun _ => rfl
  | @update out result outputs t call =>
    apply Stays.of_same
    intro finished
    unfold updateFromOutput at call
    rw [get_bind] at call
    obtain ⟨⟨sent, newRunning⟩, v, updates, call⟩ := bind_ok call
    cases call
    have start : (s.setRunning ([] ++ s.running)).Serving ∧ s.objects ref = s.objects ref := ⟨serving, rfl⟩
    refine (updateEach_invariant
      (I := fun kept rest v => (v.setRunning (kept ++ rest)).Serving ∧ v.objects ref = s.objects ref) ?_ start updates).2
    rintro kept ref' rest v w sent stopped ⟨serves, same⟩ updated
    refine ⟨serves.updateRequest updated, ?_⟩
    rcases updateRequest_ok updated with ⟨-, -, rfl⟩ | ⟨n, gen, new, request, -, -, changed⟩
    · exact same
    · have member : ref' ∈ kept ++ ref' :: rest := List.mem_append_right _ List.mem_cons_self
      rw [changed.frame.2.2.2, ← same]
      exact serves.queued.same (List.mem_append_left _ member) (same.symm ▸ finished)

theorem same_move [TupleHash] {p p' : Pass} (serving : (putBack p s).Serving)
    (finished : (s.objects ref).isFinished = true) (move : Move (s, p) (t, p')) : t.objects ref = s.objects ref := by
  have same : ∀ ref' ∈ s.running ++ (putBack p s).waiting, ∀ request,
      Function.update s.objects ref' request ref = s.objects ref :=
    fun ref' member request => serving.queued.same (s := putBack p s) member finished
  cases move with
  | skip | recordLoras | setAside | lookup => rfl
  | @wake _ _ ref' turn ready =>
    unfold Scheduler.wake
    split
    · exact same ref' (List.mem_append_right _ turn.waits) _
    · rfl
  | @preempt _ _ rest ref' _ plan manager attempt lacks last freed =>
    refine same ref' ?_ _
    rw [last]
    exact List.mem_append_left _ (List.mem_append_right _ (List.mem_singleton.mpr rfl))
  | @run _ _ ref' plan newBlocks manager attempt got => exact same ref' (List.mem_append_left _ attempt.running) _
  | @admitRequest _ _ ref' hits newBlocks c n plan looked manager attempt status got =>
    exact same ref' (List.mem_append_right _ attempt.toWaitingTurn.waits) _

theorem stays_schedule [TupleHash] {out : SchedulerOutput} (serving : s.Serving) (call : schedule s = .ok out t) :
    Stays ref s t := by
  apply Stays.of_same
  intro finished
  obtain ⟨u, p, moves, scheduled⟩ := schedule_ok call
  rw [scheduled.state]
  exact moves.invariant (I := fun v _ => v.objects ref = s.objects ref) rfl fun v q _ _ before same move =>
    (same_move (serving.moves before) (same.symm ▸ finished) move).trans same

end Scheduler

namespace Pipeline

section
variable [TupleHash] {config : SchedulerConfig} {history : List PipelineEvent} {e : Pipeline}

theorem accounted_ordered (reached : Reaches config history e) : e.scheduler.Accounted ∧ e.scheduler.Ordered := by
  induction reached with
  | start => exact ⟨nofun, Scheduler.ordered_init config⟩
  | call before stepped ih =>
    obtain ⟨accounted, ordered⟩ := ih
    have serves := serving before
    rcases step_cases stepped with ⟨-, out, t, call, rfl⟩ | ⟨-, between⟩
    · exact ⟨accounted.schedule serves call, (ordered.schedule call).1⟩
    · exact ⟨accounted.between serves between, ordered.between serves between⟩

/-- Whatever happens, the scheduler neither loses a request nor leaks a block. -/
theorem conserves (reached : Reaches config history e) : e.scheduler.Conserves :=
  (serving reached).kept (accounted_ordered reached).1 (accounted_ordered reached).2

/-- While the engine goes on the tokens of a request only get more; once it is finished, they and its status stay,
and it is in no queue, whatever comes back for it in the batches in flight. -/
theorem finished_stays {later : List PipelineEvent} {e' : Pipeline} {ref : RequestRef} (reached : Reaches config history e)
    (goesOn : Run (fun e event e' => e.step event = some e') e later e') (added : ref < e.scheduler.numObjects) :
    (e.scheduler.objects ref).outputTokenIds <+: (e'.scheduler.objects ref).outputTokenIds ∧
      ((e.scheduler.objects ref).isFinished = true →
        (e'.scheduler.objects ref).status = (e.scheduler.objects ref).status ∧
          (e'.scheduler.objects ref).outputTokenIds = (e.scheduler.objects ref).outputTokenIds ∧
          ref ∉ e'.scheduler.running ++ e'.scheduler.waiting) := by
  suffices kept : e'.scheduler.Serving ∧ Scheduler.Later e.scheduler e'.scheduler ∧
      Scheduler.Stays ref e.scheduler e'.scheduler by
    obtain ⟨serving, later, stays⟩ := kept
    refine ⟨(later.evolves ref added).outputTokenIds, fun finished => ?_⟩
    obtain ⟨status, tokens⟩ := stays finished
    refine ⟨status, tokens, fun member => ?_⟩
    have unfinished := serving.queued.isFinished member
    unfold Request.isFinished at finished unfinished
    rw [status, finished] at unfinished
    cases unfinished
  induction goesOn with
  | start => exact ⟨serving reached, Scheduler.Later.refl _, fun _ => ⟨rfl, rfl⟩⟩
  | @call _ f f' event before stepped ih =>
    obtain ⟨serves, later, stays⟩ := ih
    have step : Scheduler.Later f.scheduler f'.scheduler ∧ Scheduler.Stays ref f.scheduler f'.scheduler ∧
        f'.scheduler.Serving := by
      rcases step_cases stepped with ⟨-, out, t, call, rfl⟩ | ⟨-, between⟩
      · exact ⟨Scheduler.later_schedule call, Scheduler.stays_schedule serves call, serves.schedule call⟩
      · exact ⟨between.remains.later, Scheduler.stays_between serves (added.trans_le later.numObjects) between,
          serves.between between⟩
    refine ⟨step.2.2, later.trans step.1, fun finished => ?_⟩
    obtain ⟨status, tokens⟩ := stays finished
    have still : (f.scheduler.objects ref).isFinished = true := by
      unfold Request.isFinished at finished ⊢
      rw [status]
      exact finished
    obtain ⟨status', tokens'⟩ := step.2.1 still
    exact ⟨status'.trans status, tokens'.trans tokens⟩

end

section
attribute [local instance] sumHash

theorem conserves_twoBatches : ∃ e, Reaches oneLora [.schedule, .add (withLora 1 2), .schedule, .add (withLora 0 1)] e ∧
    e.batchQueue.length = 2 ∧ e.scheduler.Conserves := by
  have ran : ∃ e, Reaches oneLora [.schedule, .add (withLora 1 2), .schedule, .add (withLora 0 1)] e ∧
      e.batchQueue.length = 2 := Run.exists_of_execute (by decide +kernel)
  obtain ⟨e, reached, two⟩ := ran
  exact ⟨e, reached, two, conserves reached⟩

/-- A request is aborted while its first token is on the way. -/
theorem finished_stays_aborted : ∃ e e' : Pipeline, e.step (.update (chunkOf 0)) = some e' ∧
    (e.scheduler.objects 0).isFinished ∧ (e'.scheduler.objects 0).outputTokenIds = [] := by
  obtain ⟨e, reached, going, finished, added, tokens⟩ : ∃ e,
      Reaches oneLora [.abort [0], .schedule, .update (chunkOf 0), .schedule, .add (withLora 0 1)] e ∧
        (e.step (.update (chunkOf 0))).isSome ∧ (e.scheduler.objects 0).isFinished ∧ 0 < e.scheduler.numObjects ∧
        (e.scheduler.objects 0).outputTokenIds = [] :=
    Run.exists_of_execute (by decide +kernel)
  obtain ⟨e', stepped⟩ := Option.isSome_iff_exists.mp going
  have stays := (finished_stays reached (.call .start stepped) added).2 finished
  exact ⟨e, e', stepped, finished, stays.2.1.trans tokens⟩

end

end Pipeline
end Vllm.V1
