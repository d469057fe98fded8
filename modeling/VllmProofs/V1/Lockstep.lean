import VllmProofs.Data.Runs
import VllmProofs.V1.SchedulerHistory

/-!
The engine without a batch queue, `step` of `vllm/v1/engine/core.py`: what has been scheduled is executed
before anything else happens.
-/

namespace Vllm.V1
open Exec

namespace ModelRunnerOutput

/-- The runner's answer for a request has the right length: one token, and one for each draft that it
accepts. -/
def CountsFor (result : ModelRunnerOutput) (out : SchedulerOutput) (id : RequestId) : Prop :=
  match result.reqIdToIndex.get? id with
  | none => False
  | some i =>
    match result.sampledTokenIds[i]? with
    | none => False
    | some generated => 0 < generated.length ∧
      generated.length ≤ ((out.scheduledSpecDecodeTokens.get? id).getD []).length + 1 ∧
      result.specTokenIds.all (fun specTokenIds => i < specTokenIds.length)

theorem countsFor_iff {result : ModelRunnerOutput} {out : SchedulerOutput} {id : RequestId} :
    result.CountsFor out id ↔ ∃ i ∈ result.reqIdToIndex.get? id, ∃ generated ∈ result.sampledTokenIds[i]?,
      0 < generated.length ∧
      generated.length ≤ ((out.scheduledSpecDecodeTokens.get? id).getD []).length + 1 ∧
      result.specTokenIds.all (fun specTokenIds => i < specTokenIds.length) := by
  unfold CountsFor
  cases result.reqIdToIndex.get? id with
  | none => simp
  | some i => cases read : result.sampledTokenIds[i]? <;> simp [read]

instance (result : ModelRunnerOutput) (out : SchedulerOutput) (id : RequestId) :
    Decidable (result.CountsFor out id) :=
  decidable_of_iff _ countsFor_iff.symm

def Counts (result : ModelRunnerOutput) (out : SchedulerOutput) : Prop :=
  ∀ id ∈ out.numScheduledTokens.keys, result.CountsFor out id

instance (result : ModelRunnerOutput) (out : SchedulerOutput) : Decidable (result.Counts out) :=
  inferInstanceAs (Decidable (∀ id ∈ _, _))

end ModelRunnerOutput

structure Lockstep where
  scheduler : Scheduler
  /-- What has been scheduled and not yet executed. -/
  batch : Option SchedulerOutput := none

inductive LockstepEvent where
  | add (request : Request)
  | abort (ids : List RequestId)
  /-- The grammar of a request has been compiled. -/
  | grammarReady (ref : RequestRef)
  | resetPrefixCache
  /-- `step`, up to `execute_model`. -/
  | schedule
  /-- The rest of `step`. -/
  | update (result : ModelRunnerOutput)

namespace Lockstep

def start (config : SchedulerConfig) : Lockstep := { scheduler := .init config }

/-- A batch without tokens is not executed. -/
def scheduled (out : SchedulerOutput) (t : Scheduler) : Lockstep where
  scheduler := t
  batch := if 0 < out.totalNumScheduledTokens then some out else none

variable [TupleHash]

/-- There is no next state when the call raises. -/
def step (e : Lockstep) (event : LockstepEvent) : Option Lockstep :=
  match e.batch, event with
  | none, .add request =>
    if e.scheduler.requests.get? request.requestId = none ∧ request.IsNew e.scheduler.maxModelLen then
      some { e with scheduler := e.scheduler.addRequest request }
    else none
  | none, .abort ids => do
    let scheduler ← next? (Scheduler.finishRequests ids .finishedAborted) e.scheduler
    return { e with scheduler }
  | none, .grammarReady ref => some { e with scheduler := e.scheduler.grammarReady ref }
  | none, .resetPrefixCache => do
    let scheduler ← next? Scheduler.resetPrefixCache e.scheduler
    return { e with scheduler }
  | none, .schedule =>
    if e.scheduler.hasRequests then
      match Scheduler.schedule e.scheduler with
      | .ok out t => some (scheduled out t)
      | .error _ _ => none
    else some e
  | some out, .update result =>
    if result.Counts out then do
      let scheduler ← next? (Scheduler.updateFromOutput out result) e.scheduler
      return { scheduler }
    else none
  | _, _ => none

abbrev Reaches (config : SchedulerConfig) (history : List LockstepEvent) (e : Lockstep) : Prop :=
  Run (fun e event e' => e.step event = some e') (start config) history e

/-- A call that neither schedules nor takes the output of a batch. -/
inductive Quiet (s : Scheduler) : Scheduler → Prop
  | add {request : Request} (unused : s.requests.get? request.requestId = none)
      (new : request.IsNew s.maxModelLen) : Quiet s (s.addRequest request)
  | finish {ids : List RequestId} {finishedStatus : RequestStatus} {u : Unit} {t : Scheduler}
      (call : Scheduler.finishRequests ids finishedStatus s = .ok u t) : Quiet s t
  | grammarReady (ref : RequestRef) : Quiet s (s.grammarReady ref)
  | resetPrefixCache {done : Bool} {t : Scheduler} (call : Scheduler.resetPrefixCache s = .ok done t) : Quiet s t

omit [TupleHash] in
theorem Quiet.between {s t : Scheduler} (quiet : Quiet s t) : Scheduler.Between s t := by
  cases quiet with
  | add unused new => exact .add unused new
  | finish call => exact .finish call
  | grammarReady ref => exact .grammarReady ref
  | resetPrefixCache call => exact .resetPrefixCache call

/-- What an event has done. -/
inductive Stepped (e : Lockstep) : LockstepEvent → Lockstep → Prop
  | idle {event : LockstepEvent} : Stepped e event e
  | schedule {out : SchedulerOutput} {t : Scheduler} (free : e.batch = none)
      (call : Scheduler.schedule e.scheduler = .ok out t) : Stepped e .schedule (scheduled out t)
  | quiet {event : LockstepEvent} {t : Scheduler} (free : e.batch = none) (call : Quiet e.scheduler t) :
      Stepped e event { e with scheduler := t }
  | update {out : SchedulerOutput} {result : ModelRunnerOutput} {outputs : List EngineCoreOutput} {t : Scheduler}
      (batch : e.batch = some out) (counts : result.Counts out)
      (call : Scheduler.updateFromOutput out result e.scheduler = .ok outputs t) :
      Stepped e (.update result) { scheduler := t }

variable {e e' : Lockstep} {event : LockstepEvent}

theorem stepped (step : e.step event = some e') : Stepped e event e' := by
  unfold Lockstep.step at step
  split at step
  · rename_i request free
    split at step
    · rename_i allowed
      cases step
      exact .quiet free (.add allowed.1 allowed.2)
    · cases step
  · rename_i ids free
    obtain ⟨t, next, done⟩ := Option.bind_eq_some_iff.mp step
    obtain ⟨u, call⟩ := next?_eq_some.mp next
    cases done
    exact .quiet free (.finish call)
  · rename_i ref free
    cases step
    exact .quiet free (.grammarReady ref)
  · rename_i free
    obtain ⟨t, next, done⟩ := Option.bind_eq_some_iff.mp step
    obtain ⟨reset, call⟩ := next?_eq_some.mp next
    cases done
    exact .quiet free (.resetPrefixCache call)
  · rename_i free
    split at step
    · split at step
      · rename_i out t call
        cases step
        exact .schedule free call
      · cases step
    · cases step
      exact .idle
  · rename_i out result batch
    split at step
    · rename_i counts
      obtain ⟨t, next, done⟩ := Option.bind_eq_some_iff.mp step
      obtain ⟨outputs, call⟩ := next?_eq_some.mp next
      cases done
      exact .update batch counts call
    · cases step
  · cases step

end Lockstep
end Vllm.V1
