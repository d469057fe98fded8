import VllmProofs.V1.BatchRun
import VllmProofs.V1.LockstepContract

/-!
The engine with its runner, one batch at a time: what `step` schedules is what `_update_states` gets.
-/

namespace Vllm.V1
open Exec

namespace Scheduler

variable [TupleHash] {s t : Scheduler} {out : SchedulerOutput}

theorem namesOnce (serving : s.Serving) (call : schedule s = .ok out t) : out.NamesOnce := by
  obtain ⟨u, p, moves, scheduled⟩ := schedule_ok call
  obtain ⟨n, rfl⟩ := scheduled.output
  have queued := (serving.moves moves).queued
  have booked := booked_moves serving moves
  have named : ((putBack p u).output p n).named = p.scheduledRefs.map fun ref => (u.objects ref).requestId := by
    unfold SchedulerOutput.named Scheduler.output Pass.scheduledRefs
    simp only [List.map_append, List.map_map, List.append_assoc]
    rfl
  have keys : ∀ id, id ∈ ((putBack p u).output p n).numScheduledTokens.keys ↔ id ∈ ((putBack p u).output p n).named := by
    intro id
    rw [named, List.mem_map]
    exact booked.ids id
  refine ⟨?_, fun id => (keys id).mp, fun id => (keys id).mpr⟩
  rw [named]
  apply List.Nodup.map_on _ booked.nodup
  intro ref given ref' given'
  exact queued.unique (List.mem_append_left _ (booked.runs given)) (List.mem_append_left _ (booked.runs given'))

end Scheduler

structure Engine where
  core : Lockstep
  runner : GPUModelRunner

namespace Engine

def start (config : SchedulerConfig) (maxNumBlocksPerReq vocabSize : ℕ) : Engine where
  core := .start config
  runner := (AuditedRunner.start config.maxNumSeqs config.maxModelLen maxNumBlocksPerReq vocabSize).runner

section
variable [TupleHash]

/-- A batch that is scheduled goes to the runner. There is no next state when a call raises. -/
def step (e : Engine) (event : LockstepEvent) : Option Engine := do
  let core ← e.core.step event
  match event, core.batch with
  | .schedule, some out => do
    let runner ← next? (GPUModelRunner.updateStates out) e.runner
    return { core, runner }
  | _, _ => return { e with core }

abbrev Reaches (config : SchedulerConfig) (maxNumBlocksPerReq vocabSize : ℕ) (history : List LockstepEvent) (e : Engine) :
    Prop := Run (fun e event e' => e.step event = some e') (start config maxNumBlocksPerReq vocabSize) history e

variable {config : SchedulerConfig} {maxNumBlocksPerReq vocabSize : ℕ} {history : List LockstepEvent}
  {e e' : Engine} {event : LockstepEvent}

end

section
attribute [local instance] sumHash

def small : SchedulerConfig where
  blockSize := 4
  numGpuBlocks := 8
  maxModelLen := 16
  enableCaching := false
  blocksHaveSlots := CacheConfig.four_pos
  someBlocks := CacheConfig.eight_pos
  maxNumSeqs := 4
  maxNumBatchedTokens := 16

def shortRequest (requestId : RequestId) : Request where
  requestId
  samplingParams := { maxTokens := 1 }
  promptTokenIds := [7]

/-- The grammar of the request takes a while to compile. -/
def guidedRequest (requestId : RequestId) : Request where
  requestId
  samplingParams := { maxTokens := 1, guidedDecoding := true }
  promptTokenIds := [8]
  status := .waitingForFsm

def oneToken : ModelRunnerOutput where
  reqIdToIndex := Dict.empty.insert 0 0
  sampledTokenIds := [[9]]

/-- Request 0 stops in a step after which only a request without tokens is left, and the batch that says so
is not executed. -/
theorem two_rows : ∃ e, Reaches small 4 32 [.schedule, .add (shortRequest 0), .schedule, .update oneToken, .schedule,
    .add (guidedRequest 1), .add (shortRequest 0)] e ∧
      (e.runner.inputBatch.reqIds = [some 0, some 0] ∧ e.runner.inputBatch.numReqs = 1) ∧
        ∀ ledger, ¬ e.runner.inputBatch.Faithful ledger := by
  have ran : ∃ e, Reaches small 4 32 [.schedule, .add (shortRequest 0), .schedule, .update oneToken, .schedule,
      .add (guidedRequest 1), .add (shortRequest 0)] e ∧
        e.runner.inputBatch.reqIds = [some 0, some 0] ∧ e.runner.inputBatch.numReqs = 1 := by
    apply Run.exists_of_execute
    decide +kernel
  obtain ⟨e, reached, rows, count⟩ := ran
  refine ⟨e, reached, ⟨rows, count⟩, fun ledger faithful => ?_⟩
  have length := faithful.length
  rw [rows, count] at length
  cases length

end

end Engine
end Vllm.V1
