import VllmProofs.Frontend.LoRARequestStates

/-!
`OutputProcessor` of `vllm/v1/engine/output_processor.py`, and how `add_request` of `LLMEngine` and `AsyncLLM`
registers the children of a request with it. A tokenizer for the request is taken as given.
-/

namespace Vllm.Frontend
open Exec

abbrev ParentRef := ℕ

structure RequestRecord (L : Type) where
  state : RequestState L
  parentReq : Option ParentRef
  loraName : Option LoRAName
  /-- `queue is not None` -/
  queued : Bool
  /-- `stats is not None` -/
  hasStats : Bool

structure TimedOutput (L : Type) extends EngineCoreOutput L where
  events : Option (List EngineCoreEventType) := none

structure OutputProcessor (L : Type) where
  logStats : Bool
  requestStates : Dict RequestId (RequestRecord L) := ∅
  loraStates : LoRARequestStates := ∅
  /-- The `ParentRequest` objects the request states refer to. -/
  parents : List (ParentRequest L) := []
  /-- What has been put into the queues, latest last, by the request whose output it is. -/
  queues : List (RequestId × RequestOutput L) := []

structure Results (L : Type) where
  requestOutputs : List (RequestOutput L) := []
  reqsToAbort : List RequestId := []
  iterationStats : Option IterationStats

namespace OutputProcessor

variable {L : Type}

/-- A method of `lora_states`, run on the processor that owns it. -/
def onLora {α : Type} : Method LoRARequestStates α → Method (OutputProcessor L) α :=
  zoom OutputProcessor.loraStates fun loraStates s => { s with loraStates }

def setRecord (requestId : RequestId) (record : RequestRecord L) : Method (OutputProcessor L) Unit :=
  modify fun s => { s with requestStates := s.requestStates.insert requestId record }

def onParent (parentReq : ParentRef) (f : ParentRequest L → ParentRequest L) : Method (OutputProcessor L) Unit :=
  modify fun s => { s with parents := s.parents.modify parentReq f }

/-- `if req_state.parent_req is not None: req_state.parent_req.finish_child_request(req_id)` -/
def finishChildRequest (requestId : RequestId) : Option ParentRef → Method (OutputProcessor L) Unit
  | none => pure ()
  | some parentReq => do
    let s ← get
    if requestId ∈ (s.parents[parentReq]?.map ParentRequest.childRequests).getD [] then
      onParent parentReq fun parent => { parent with childRequests := parent.childRequests.erase requestId }
    else throw .keyError

def abortRequests : List RequestId → Method (OutputProcessor L) Unit
  | [] => pure ()
  | requestId :: rest => do
    let s ← get
    match s.requestStates.get? requestId with
    | none => abortRequests rest
    | some record =>
      set { s with requestStates := s.requestStates.erase requestId }
      onLora (LoRARequestStates.abortRequest record.state.requestId record.loraName)
      finishChildRequest requestId record.parentReq
      abortRequests rest

def addRequest (request : EngineCoreRequest) (loraName : Option LoRAName) (parentReq : Option ParentRef)
    (requestIndex : ℕ) (queued : Bool) : Method (OutputProcessor L) Unit := do
  let s ← get
  let requestId := request.requestId
  if s.requestStates.contains requestId then throw (.valueError s!"Request id {requestId} already running.")
  else
    let state := RequestState.fromNewRequest request requestIndex
    setRecord requestId { state, parentReq, loraName, queued, hasStats := s.logStats }
    onLora (LoRARequestStates.addRequest state.requestId loraName)

def updateStatsFromOutput (record : RequestRecord L) (output : TimedOutput L) (timestamp : Option ℚ) :
    Option IterationStats → Method (OutputProcessor L) (Option IterationStats)
  | none => return none
  | some iterationStats => do
    let loraStats ← onLora (LoRARequestStates.getStats record.loraName)
    assertThat (timestamp.isSome = true)
    assertThat (record.hasStats = true)
    some <$> onLora (LoRARequestStates.updateFromEvents output.requestId loraStats (output.events.getD [])
      iterationStats)

def updateStatsFromFinished (record : RequestRecord L) : Option IterationStats → Method (OutputProcessor L) Unit
  | none => pure ()
  | some _ => do
    assertThat (record.hasStats = true)
    onLora (LoRARequestStates.finishRequest record.state.requestId record.loraName)

/-- The text, logprobs and output of a request. After a failed assertion they are those of before. -/
def makeOutput [Tokenizer] (record : RequestRecord L) (output : TimedOutput L) :
    Method (OutputProcessor L) (Processed L) := do
  let s ← get
  let parent := record.parentReq.bind fun parentReq => s.parents[parentReq]?
  match record.state.processOutput output.toEngineCoreOutput parent with
  | none => throw .assertionError
  | some made =>
    setRecord output.requestId { record with state := made.state }
    match record.parentReq, made.parentReq with
    | some parentReq, some parent => onParent parentReq fun _ => parent
    | _, _ => pure ()
    return made

/-- `queue.put_nowait`, or the list of the outputs. -/
def handOver (record : RequestRecord L) (results : Results L) :
    Option (RequestOutput L) → Method (OutputProcessor L) (Results L)
  | none => return results
  | some requestOutput =>
    if record.queued then do
      modify fun s => { s with queues := s.queues ++ [(record.state.requestId, requestOutput)] }
      return results
    else return { results with requestOutputs := results.requestOutputs ++ [requestOutput] }

def processOne [Tokenizer] (timestamp : Option ℚ) (output : TimedOutput L) (results : Results L) :
    Method (OutputProcessor L) (Results L) := do
  let s ← get
  match s.requestStates.get? output.requestId with
  | none => return results
  | some record =>
    let iterationStats ← updateStatsFromOutput record output timestamp results.iterationStats
    let made ← makeOutput record output
    let results ← handOver record { results with iterationStats } made.requestOutput
    match made.finishReason with
    | none => return results
    | some _ =>
      modify fun s => { s with requestStates := s.requestStates.erase output.requestId }
      finishChildRequest output.requestId record.parentReq
      updateStatsFromFinished record iterationStats
      if output.finishReason.isSome then return results
      else return { results with reqsToAbort := results.reqsToAbort ++ [output.requestId] }

def processEach [Tokenizer] (timestamp : Option ℚ) :
    List (TimedOutput L) → Results L → Method (OutputProcessor L) (Results L)
  | [], results => return results
  | output :: rest, results => do
    processEach timestamp rest (← processOne timestamp output results)

def processOutputs [Tokenizer] (outputs : List (TimedOutput L)) (timestamp : Option ℚ)
    (iterationStats : Option IterationStats) : Method (OutputProcessor L) (Results L) := do
  let results ← processEach timestamp outputs { iterationStats }
  let s ← get
  return { results with iterationStats := s.loraStates.updateIterationStats results.iterationStats }

/-- The children of a parallel request, one after the other. -/
def addChildren (request : EngineCoreRequest) (loraName : Option LoRAName) (parentReq : ParentRef) (queued : Bool) :
    List ℕ → Method (OutputProcessor L) Unit
  | [] => pure ()
  | index :: rest => do
    let requestId := childRequestId index request.requestId
    onParent parentReq fun parent => { parent with childRequests := parent.childRequests.insert requestId }
    addRequest { request with requestId, samplingParams := request.samplingParams.forChild } loraName
      (some parentReq) index queued
    addChildren request loraName parentReq queued rest

def addFromEngine (request : EngineCoreRequest) (loraName : Option LoRAName) (queued : Bool) :
    Method (OutputProcessor L) Unit := do
  if request.samplingParams.n = 1 then addRequest request loraName none 0 queued
  else
    let s ← get
    let parent : ParentRequest L := { requestId := request.requestId, n := request.samplingParams.n }
    set { s with parents := s.parents ++ [parent] }
    addChildren request loraName s.parents.length queued (List.range request.samplingParams.n)

end OutputProcessor
end Vllm.Frontend
