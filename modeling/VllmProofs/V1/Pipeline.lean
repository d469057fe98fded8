import VllmProofs.Data.Runs
import VllmProofs.V1.SchedulerServing

/-!
The engine with a batch queue, `step_with_batch_queue` of `vllm/v1/engine/core.py`: batches are
scheduled while earlier ones are executed, and their outputs come back in the order of the batches.
-/

namespace Vllm.V1
open Exec

namespace ModelRunnerOutput

/-- The runner's answer for a request: some of its drafts, accepted, and one more token. -/
def AnswersFor (result : ModelRunnerOutput) (out : SchedulerOutput) (id : RequestId) : Prop :=
  match result.reqIdToIndex.get? id with
  | none => False
  | some i =>
    match result.sampledTokenIds[i]? with
    | none => False
    | some generated => generated ≠ [] ∧
      generated.dropLast <+: (out.scheduledSpecDecodeTokens.get? id).getD [] ∧
      result.specTokenIds.all (fun specTokenIds => i < specTokenIds.length)

instance (result : ModelRunnerOutput) (out : SchedulerOutput) (id : RequestId) :
    Decidable (result.AnswersFor out id) := by
  unfold AnswersFor
  split
  · infer_instance
  · split <;> infer_instance

def Answers (result : ModelRunnerOutput) (out : SchedulerOutput) : Prop :=
  ∀ id ∈ out.numScheduledTokens.keys, result.AnswersFor out id

instance (result : ModelRunnerOutput) (out : SchedulerOutput) : Decidable (result.Answers out) :=
  inferInstanceAs (Decidable (∀ id ∈ _, _))

end ModelRunnerOutput

structure Ticket where
  ref : RequestRef
  admission : ℕ
  start : ℕ
  tokenIds : List TokenId
  blockIds : List BlockId

/-- A batch that is being executed. -/
structure Batch where
  output : SchedulerOutput
  tickets : Dict RequestId Ticket

structure Pipeline where
  scheduler : Scheduler
  /-- Oldest first. -/
  batchQueue : List Batch := []
  /-- How many times a request has started to run. -/
  admissions : RequestRef → ℕ := fun _ => 0
  /-- How many tokens were found in the prefix cache when it started to run last. -/
  cachedTokens : RequestRef → ℕ := fun _ => 0
  /-- What has been computed. -/
  executed : List Ticket := []

inductive PipelineEvent where
  | add (request : Request)
  | abort (ids : List RequestId)
  /-- The grammar of a request has been compiled. -/
  | grammarReady (ref : RequestRef)
  | resetPrefixCache
  | schedule
  /-- The oldest batch has been executed. -/
  | update (result : ModelRunnerOutput)

namespace Pipeline

def start (config : SchedulerConfig) : Pipeline := { scheduler := .init config }

/-- `t` is the scheduler after it has scheduled `n` tokens of a request. -/
def ticket (t : Scheduler) (out : SchedulerOutput) (admissions : RequestRef → ℕ) (id : RequestId) (n : ℕ) : Ticket :=
  let ref := (t.requests.get? id).getD 0
  let request := t.objects ref
  let drafts := (out.scheduledSpecDecodeTokens.get? id).getD []
  { ref
    admission := admissions ref
    start := request.numComputedTokens
    tokenIds := ((request.allTokenIds ++ drafts).drop request.numComputedTokens).take n
    blockIds := t.kvCacheManager.blocksOf id }

/-- A request of `t` that did not run in `s`. -/
def Admitted (s t : Scheduler) (ref : RequestRef) : Prop := ref ∈ t.running ∧ ref ∉ s.running

instance (s t : Scheduler) (ref : RequestRef) : Decidable (Admitted s t ref) := inferInstanceAs (Decidable (_ ∧ _))

/-- A batch is scheduled; one without tokens is not executed. -/
def scheduled (e : Pipeline) (out : SchedulerOutput) (t : Scheduler) : Pipeline :=
  let admissions := fun ref => if Admitted e.scheduler t ref then e.admissions ref + 1 else e.admissions ref
  { e with
    scheduler := t
    batchQueue := if 0 < out.totalNumScheduledTokens then
      e.batchQueue ++ [⟨out, out.numScheduledTokens.mapVal (ticket t out admissions)⟩] else e.batchQueue
    admissions
    cachedTokens := fun ref => if Admitted e.scheduler t ref then (t.objects ref).numComputedTokens
      else e.cachedTokens ref }

variable [TupleHash]

/-- There is no next state when the call raises. -/
def step (e : Pipeline) : PipelineEvent → Option Pipeline
  | .add request =>
    if e.scheduler.requests.get? request.requestId = none ∧ request.IsNew e.scheduler.maxModelLen then
      some { e with scheduler := e.scheduler.addRequest request }
    else none
  | .abort ids => do
    let scheduler ← next? (Scheduler.finishRequests ids .finishedAborted) e.scheduler
    return { e with scheduler }
  | .grammarReady ref => some { e with scheduler := e.scheduler.grammarReady ref }
  | .resetPrefixCache => do
    let scheduler ← next? Scheduler.resetPrefixCache e.scheduler
    return { e with scheduler }
  | .schedule =>
    match Scheduler.schedule e.scheduler with
    | .ok out t => some (e.scheduled out t)
    | .error _ _ => none
  | .update result =>
    match e.batchQueue with
    | [] => none
    | batch :: rest =>
      if result.Answers batch.output then do
        let scheduler ← next? (Scheduler.updateFromOutput batch.output result) e.scheduler
        return { e with scheduler, batchQueue := rest, executed := e.executed ++ batch.tickets.values }
      else none

abbrev Reaches (config : SchedulerConfig) (history : List PipelineEvent) (e : Pipeline) : Prop :=
  Run (fun e event e' => e.step event = some e') (start config) history e

variable {e e' : Pipeline} {event : PipelineEvent}

theorem step_add {request : Request} (unused : e.scheduler.requests.get? request.requestId = none)
    (new : request.IsNew e.scheduler.maxModelLen) :
    e.step (.add request) = some { e with scheduler := e.scheduler.addRequest request } := by
  simp only [step]
  exact if_pos ⟨unused, new⟩

theorem schedule_of_step (stepped : e.step .schedule = some e') :
    ∃ out t, Scheduler.schedule e.scheduler = .ok out t ∧ e' = e.scheduled out t := by
  simp only [step] at stepped
  split at stepped
  · rename_i out t call
    cases stepped
    exact ⟨out, t, call, rfl⟩
  · cases stepped

theorem update_of_step {result : ModelRunnerOutput} (stepped : e.step (.update result) = some e') :
    ∃ batch rest outputs t, e.batchQueue = batch :: rest ∧ result.Answers batch.output ∧
      Scheduler.updateFromOutput batch.output result e.scheduler = .ok outputs t ∧
      e' = { e with scheduler := t, batchQueue := rest, executed := e.executed ++ batch.tickets.values } := by
  simp only [step] at stepped
  split at stepped
  · cases stepped
  · rename_i batch rest queue
    split at stepped
    · rename_i answers
      obtain ⟨t, next, done⟩ := Option.bind_eq_some_iff.mp stepped
      obtain ⟨outputs, call⟩ := next?_eq_some.mp next
      cases done
      exact ⟨batch, rest, outputs, t, queue, answers, call, rfl⟩
    · cases stepped

theorem between_of_step (stepped : e.step event = some e') (other : event ≠ .schedule) :
    Scheduler.Between e.scheduler e'.scheduler := by
  cases event with
  | add request =>
    simp only [step] at stepped
    split at stepped
    · rename_i allowed
      cases stepped
      exact .add allowed.1 allowed.2
    · cases stepped
  | abort ids =>
    obtain ⟨t, next, done⟩ := Option.bind_eq_some_iff.mp stepped
    obtain ⟨u, call⟩ := next?_eq_some.mp next
    cases done
    exact .finish call
  | grammarReady ref =>
    cases stepped
    exact .grammarReady ref
  | resetPrefixCache =>
    obtain ⟨t, next, done⟩ := Option.bind_eq_some_iff.mp stepped
    obtain ⟨reset, call⟩ := next?_eq_some.mp next
    cases done
    exact .resetPrefixCache call
  | schedule => exact absurd rfl other
  | update result =>
    obtain ⟨batch, rest, outputs, t, -, -, call, rfl⟩ := update_of_step stepped
    exact .update call

theorem step_cases (stepped : e.step event = some e') :
    (event = .schedule ∧ ∃ out t, Scheduler.schedule e.scheduler = .ok out t ∧ e' = e.scheduled out t) ∨
      event ≠ .schedule ∧ Scheduler.Between e.scheduler e'.scheduler := by
  cases event with
  | schedule => exact Or.inl ⟨rfl, schedule_of_step stepped⟩
  | add | abort | grammarReady | resetPrefixCache | update =>
    exact Or.inr ⟨nofun, between_of_step stepped nofun⟩

theorem serving {config : SchedulerConfig} {history : List PipelineEvent} (reached : Reaches config history e) :
    e.scheduler.Serving := by
  apply Run.invariant (I := fun _ e => e.scheduler.Serving) _ _ reached
  · exact Scheduler.serving_init config
  · intro _ e event e' before stepped
    rcases step_cases stepped with ⟨-, out, t, call, rfl⟩ | ⟨-, between⟩
    · exact before.schedule call
    · exact before.between between

end Pipeline

@[reducible] def sumHash : TupleHash := ⟨1, fun parent tokens _ => 31 * parent + tokens.sum + 1⟩

end Vllm.V1
