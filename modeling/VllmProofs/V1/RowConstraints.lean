import VllmProofs.V1.Engine

/-!
Logit biases and masks of allowed tokens, which are only written for requests that have them: what is left
in a row whose request has moved is found by the next one.
-/

namespace Vllm.V1
open Exec

/-- The request asks nothing of its logits. -/
def SamplingParams.Unconstrained (params : SamplingParams) : Prop :=
  params.logitBias = none ∧ params.allowedTokenIds.getD [] = []

instance (params : SamplingParams) : Decidable params.Unconstrained := inferInstanceAs (Decidable (_ ∧ _))

def SamplingParams.maskedTokens (params : SamplingParams) : TokenId → Bool :=
  match params.allowedTokenIds.getD [] with
  | [] => fun _ => false
  | allowedTokenIds => InputBatch.maskRow allowedTokenIds

namespace InputBatch

variable {s t : InputBatch} {i j : ℕ} {id : RequestId} {request : CachedRequestState}

/-- The mask of a row; as long as there is no mask, nothing is masked. -/
def maskAt (s : InputBatch) (i : ℕ) : TokenId → Bool := s.allowedTokenIdsMaskCpuTensor.getD (fun _ _ => false) i

variable {loras : Dict ℕ (Finset RequestId)}

theorem maskAt_removed :
    (s.removed i id loras).maskAt j = if j = i then fun _ => false else s.maskAt j := by
  have mask : (s.removed i id loras).allowedTokenIdsMaskCpuTensor =
      s.allowedTokenIdsMaskCpuTensor.map fun mask => Function.update mask i fun _ => false := rfl
  unfold maskAt
  rw [mask]
  cases s.allowedTokenIdsMaskCpuTensor with
  | none => exact (ite_self _).symm
  | some mask => exact Function.update_apply _ _ _ _

theorem maskAt_moved {last empty : ℕ} :
    (s.moved last empty id).maskAt j = if j = empty then s.maskAt last else s.maskAt j := by
  have mask : (s.moved last empty id).allowedTokenIdsMaskCpuTensor =
      s.allowedTokenIdsMaskCpuTensor.map fun mask => Function.update mask empty (mask last) := rfl
  unfold maskAt
  rw [mask]
  cases s.allowedTokenIdsMaskCpuTensor with
  | none => exact (ite_self _).symm
  | some mask => exact Function.update_apply _ _ _ _

theorem maskAt_added (blank : s.maskAt i = fun _ => false) :
    (s.added i request).maskAt j = if j = i then request.samplingParams.maskedTokens else s.maskAt j := by
  unfold maskAt SamplingParams.maskedTokens
  unfold maskAt at blank
  rw [added_mask]
  unfold nowMasked
  cases request.samplingParams.allowedTokenIds.getD [] with
  | nil =>
    by_cases here : j = i
    · rw [if_pos here, here]
      exact blank
    · rw [if_neg here]
  | cons tokenId rest => exact Function.update_apply _ _ _ _

theorem logitBias_added (blank : s.logitBias i = none) :
    (s.added i request).logitBias j = if j = i then request.samplingParams.logitBias else s.logitBias j := by
  rw [added_logitBias]
  unfold nowBiased
  cases request.samplingParams.logitBias with
  | none =>
    split
    · rename_i here
      rw [here]
      exact blank
    · rfl
  | some bias => exact Function.update_apply _ _ _ _

structure Constrained (s : InputBatch) (params : RequestId → Option SamplingParams) : Prop where
  rows : ∀ id i, s.reqIdToIndex.get? id = some i →
    ∃ p, params id = some p ∧ s.logitBias i = p.logitBias ∧ s.maskAt i = p.maskedTokens
  blank : ∀ i, (∀ id, s.reqIds[i]? ≠ some (some id)) → s.logitBias i = none ∧ s.maskAt i = fun _ => false

variable {params : RequestId → Option SamplingParams} {holes : List ℕ}

theorem Constrained.remove (constrained : Constrained s params)
    (occupied : Occupied s holes) (found : s.reqIdToIndex.get? id = some i) : Constrained (s.removed i id loras) params := by
  have bias : ∀ j, (s.removed i id loras).logitBias j = if j = i then none else s.logitBias j :=
    Function.update_apply _ _ _
  constructor
  · intro id' j found'
    have index : (s.removed i id loras).reqIdToIndex = s.reqIdToIndex.erase id := rfl
    rw [index, Dict.get?_erase] at found'
    split at found'
    · cases found'
    · rename_i other
      have apart := rows_apart occupied.index found found' other
      rw [bias, maskAt_removed, if_neg apart, if_neg apart]
      exact constrained.rows id' j found'
  · intro j vacant
    rw [bias, maskAt_removed]
    split
    · exact ⟨rfl, rfl⟩
    · rename_i other
      apply constrained.blank j
      intro id' there
      apply vacant id'
      show (s.reqIds.set i none)[j]? = _
      rw [List.getElem?_set_ne (Ne.symm other)]
      exact there

theorem Constrained.add (constrained : Constrained s params) (occupied : Occupied s holes) (next : NextRow s i)
    (known : params request.reqId = some request.samplingParams) : Constrained (s.added i request) params := by
  obtain ⟨bias, mask⟩ := constrained.blank i next.vacant
  constructor
  · intro id j found
    rw [added_reqIdToIndex, Dict.get?_insert] at found
    rw [logitBias_added bias, maskAt_added mask]
    split at found
    · rename_i mine
      cases found
      rw [if_pos rfl, if_pos rfl, mine]
      exact ⟨_, known, rfl, rfl⟩
    · have other : j ≠ i := by
        rintro rfl
        exact next.vacant id ((occupied.index id j).mp found)
      rw [if_neg other, if_neg other]
      exact constrained.rows id j found
  · intro j vacant
    rw [added_reqIds] at vacant
    have other : j ≠ i := by
      rintro rfl
      apply vacant request.reqId
      rw [get?_placed next.inside, if_pos rfl]
    rw [logitBias_added bias, maskAt_added mask, if_neg other, if_neg other]
    apply constrained.blank j
    intro id there
    apply vacant id
    rw [get?_placed next.inside, if_neg other]
    exact there

/-- What the request leaves behind in its row is no constraint, when it has none. -/
theorem Constrained.move {last empty : ℕ} (constrained : Constrained s params) (movable : Movable s last empty id)
    (unconstrained : ∀ p, params id = some p → p.Unconstrained) : Constrained (s.moved last empty id) params := by
  have bias : ∀ j, (s.moved last empty id).logitBias j = if j = empty then s.logitBias last else s.logitBias j :=
    Function.update_apply _ _ _
  obtain ⟨index, -, less, wasEmpty, at_, -⟩ := movable
  have found := (index id last).mpr at_
  have inside := (List.getElem?_eq_some_iff.mp at_).1
  constructor
  · intro id' j found'
    have same : (s.moved last empty id).reqIdToIndex = s.reqIdToIndex.insert id empty := rfl
    rw [same, Dict.get?_insert] at found'
    rw [bias, maskAt_moved]
    split at found'
    · rename_i mine
      cases found'
      rw [if_pos rfl, if_pos rfl, mine]
      exact constrained.rows id last found
    · have filled : j ≠ empty := by
        rintro rfl
        rw [index, wasEmpty] at found'
        cases found'
      rw [if_neg filled, if_neg filled]
      exact constrained.rows id' j found'
  · intro j vacant
    have rows : (s.moved last empty id).reqIds[j]? = ((s.reqIds.set empty (some id)).set last none)[j]? := rfl
    have other : j ≠ empty := by
      rintro rfl
      apply vacant id
      rw [rows, List.getElem?_set_ne (Nat.ne_of_gt less), List.getElem?_set_self (by omega)]
    rw [bias, maskAt_moved, if_neg other, if_neg other]
    by_cases here : j = last
    · obtain ⟨p, known, asks⟩ := constrained.rows id last found
      obtain ⟨noBias, noMask⟩ := unconstrained p known
      rw [here, asks.1, asks.2]
      refine ⟨noBias, ?_⟩
      unfold SamplingParams.maskedTokens
      rw [noMask]
    · apply constrained.blank j
      intro id' there
      apply vacant id'
      rw [rows, List.getElem?_set_ne (Ne.symm here), List.getElem?_set_ne (Ne.symm other)]
      exact there

end InputBatch
namespace GPUModelRunner
open InputBatch

variable {r r' : GPUModelRunner} {out : SchedulerOutput} {id : RequestId} {v : InputBatch} {i : ℕ}

def Stays (r : GPUModelRunner) (out : SchedulerOutput) (id : RequestId) : Prop :=
  match r.inputBatch.reqIdToIndex.get? id, r.paramsOf id with
  | some i, some params => i < out.numScheduledTokens.size ∨ params.Unconstrained
  | _, _ => True

instance (r : GPUModelRunner) (out : SchedulerOutput) (id : RequestId) : Decidable (r.Stays out id) := by
  unfold Stays
  split <;> infer_instance

def MovesUnconstrained (r : GPUModelRunner) (out : SchedulerOutput) : Prop :=
  ∀ id ∈ out.numScheduledTokens.keys, id ∈ out.finishedReqIds ∨ r.Stays out id

instance (r : GPUModelRunner) (out : SchedulerOutput) : Decidable (r.MovesUnconstrained out) :=
  inferInstanceAs (Decidable (∀ id ∈ _, _ ∨ _))

theorem numReqs_scheduled (live : ∀ id, (v.reqIdToIndex.get? id).isSome ↔ id ∈ out.numScheduledTokens.keys) :
    v.numReqs = out.numScheduledTokens.size := by
  have perm : v.reqIdToIndex.keys.Perm out.numScheduledTokens.keys := by
    apply (List.perm_ext_iff_of_nodup v.reqIdToIndex.nodup out.numScheduledTokens.nodup).mpr
    intro id
    exact Dict.mem_keys_iff.trans (Option.isSome_iff_exists.symm.trans (live id))
  have lengths := perm.length_eq
  unfold Dict.keys at lengths
  rw [List.length_map, List.length_map] at lengths
  exact lengths

theorem nextRow_scheduled {holes : List ℕ} (occupied : Occupied v holes) (next : NextRow v i)
    (unused : v.reqIdToIndex.get? id = none) (key : id ∈ out.numScheduledTokens.keys)
    (scheduled : ∀ id i, v.reqIdToIndex.get? id = some i → id ∈ out.numScheduledTokens.keys) :
    i < out.numScheduledTokens.size := by
  have before := le_numReqs occupied.index next.inside next.first
  have nodup : (id :: v.reqIdToIndex.keys).Nodup := by
    refine List.nodup_cons.mpr ⟨fun member => ?_, v.reqIdToIndex.nodup⟩
    obtain ⟨i, found⟩ := Dict.mem_keys_iff.mp member
    rw [unused] at found
    cases found
  have subset : (id :: v.reqIdToIndex.keys) ⊆ out.numScheduledTokens.keys := by
    intro id' member
    rcases List.mem_cons.mp member with rfl | live
    · exact key
    · obtain ⟨i, found⟩ := Dict.mem_keys_iff.mp live
      exact scheduled id' i found
  have lengths := (List.subperm_of_subset nodup subset).length_le
  unfold Dict.keys at lengths
  rw [List.length_cons, List.length_map, List.length_map] at lengths
  exact Nat.lt_of_le_of_lt before lengths

structure Constraining (r' : GPUModelRunner) (out : SchedulerOutput) (v : InputBatch) : Prop where
  constrained : Constrained v r'.paramsOf
  low : ∀ id i p, v.reqIdToIndex.get? id = some i → r'.paramsOf id = some p →
    i < out.numScheduledTokens.size ∨ p.Unconstrained

theorem constraining_start {u : Unit} (call : updateStates out r = .ok u r') (fresh : r.Fresh out)
    (moves : r.MovesUnconstrained out) (constrained : Constrained v r.paramsOf)
    (index : ∀ id, v.reqIdToIndex.get? id =
      if id ∈ out.numScheduledTokens.keys ∧ id ∉ out.finishedReqIds then r.inputBatch.reqIdToIndex.get? id else none) :
    Constraining r' out v ∧ ∀ id i, v.reqIdToIndex.get? id = some i → id ∈ out.numScheduledTokens.keys := by
  have goesOn : ∀ id i, v.reqIdToIndex.get? id = some i → id ∈ out.numScheduledTokens.keys ∧
      id ∉ out.finishedReqIds ∧ r.inputBatch.reqIdToIndex.get? id = some i ∧ r'.paramsOf id = r.paramsOf id := by
    intro id i found
    rw [index] at found
    split at found
    · rename_i both
      refine ⟨both.1, both.2, found, paramsOf_updateStates call both.2 fun new => ?_⟩
      obtain ⟨data, member, rfl⟩ := List.mem_map.mp new
      rcases fresh data member with absent | ended
      · rw [absent] at found
        cases found
      · exact both.2 ended
    · cases found
  refine ⟨⟨⟨fun id i found => ?_, constrained.blank⟩, fun id i p found known => ?_⟩, fun id i found => (goesOn id i found).1⟩
  · rw [(goesOn id i found).2.2.2]
    exact constrained.rows id i found
  · obtain ⟨key, notFinished, row, same⟩ := goesOn id i found
    rw [same] at known
    have stays := (moves id key).resolve_left notFinished
    unfold Stays at stays
    rw [row, known] at stays
    exact stays

theorem Constraining.add {holes : List ℕ} {state : CachedRequestState} (constraining : Constraining r' out v)
    (scheduled : ∀ id i, v.reqIdToIndex.get? id = some i → id ∈ out.numScheduledTokens.keys)
    (key : state.reqId ∈ out.numScheduledTokens.keys) (occupied : Occupied v holes) (next : NextRow v i)
    (absent : v.reqIdToIndex.get? state.reqId = none) (known : r'.requests.get? state.reqId = some state) :
    Constraining r' out (v.added i state) ∧
      ∀ id j, (v.added i state).reqIdToIndex.get? id = some j → id ∈ out.numScheduledTokens.keys := by
  have low := nextRow_scheduled occupied next absent key scheduled
  refine ⟨⟨constraining.constrained.add occupied next ?_, ?_⟩, ?_⟩
  · unfold paramsOf
    rw [known]
    rfl
  · intro id j p found params
    rw [added_reqIdToIndex, Dict.get?_insert] at found
    split at found
    · cases found
      exact .inl low
    · exact constraining.low id j p found params
  · intro id j found
    rw [added_reqIdToIndex, Dict.get?_insert] at found
    split at found
    · rename_i mine
      rw [mine]
      exact key
    · exact scheduled id j found

theorem Constraining.move {last empty : ℕ} (constraining : Constraining r' out v)
    (live : ∀ id, (v.reqIdToIndex.get? id).isSome ↔ id ∈ out.numScheduledTokens.keys) (movable : Movable v last empty id) :
    Constraining r' out (v.moved last empty id) := by
  have behind := numReqs_le movable.index movable.less.le movable.wasEmpty movable.beyond
  rw [numReqs_scheduled live] at behind
  have found := (movable.index id last).mpr movable.at_
  constructor
  · apply constraining.constrained.move movable
    intro p known
    rcases constraining.low id last p found known with low | unconstrained
    · omega
    · exact unconstrained
  · intro id' j p found' known
    have same : (v.moved last empty id).reqIdToIndex = v.reqIdToIndex.insert id empty := rfl
    rw [same, Dict.get?_insert] at found'
    split at found'
    · rename_i mine
      rw [mine] at known
      rcases constraining.low id last p found known with low | unconstrained
      · omega
      · exact .inr unconstrained
    · exact constraining.low id' j p found' known

theorem Constraining.cut {reqIds : List (Option RequestId)} (constraining : Constraining r' out v) (cuts : Cuts v reqIds) :
    Constraining r' out { v with reqIds } :=
  ⟨⟨constraining.constrained.rows, fun i vacant => constraining.constrained.blank i fun id there =>
    vacant id (cuts i id there)⟩, constraining.low⟩

structure WithinConstraints (r : GPUModelRunner) : Prop where
  occupied : Occupied r.inputBatch []
  known : r.Known
  constrained : Constrained r.inputBatch r.paramsOf

theorem WithinConstraints.update {u : Unit} (within : WithinConstraints r) (names : out.NamesOnce) (fresh : r.Fresh out)
    (moves : r.MovesUnconstrained out) (call : updateStates out r = .ok u r') : WithinConstraints r' := by
  obtain ⟨occupied, known, constrained⟩ := within
  obtain ⟨constraining, occupied, known, -⟩ := updateStates_rule (A := fun v => Constrained v r.paramsOf)
    (I := fun _ v => Constraining r' out v ∧ ∀ id i, v.reqIdToIndex.get? id = some i → id ∈ out.numScheduledTokens.keys)
    (J := Constraining r' out)
    (fun v holes i id loras occupied found constrained => constrained.remove occupied found)
    (fun v constrained index => constraining_start call fresh moves constrained index)
    (fun v holes data rest i occupied found both => ⟨⟨⟨both.1.constrained.rows, both.1.constrained.blank⟩, both.1.low⟩, both.2⟩)
    (fun v data rest absent both => both)
    (fun v holes i state key occupied next absent known both => both.1.add both.2 key occupied next absent known)
    (fun v both => both.1)
    (fun v last empty id constraining live movable => constraining.move live movable)
    (fun v reqIds cuts constraining => constraining.cut cuts)
    names fresh known occupied constrained call
  exact ⟨occupied, known, constraining.constrained⟩

/-- There is no next state when the call raises. -/
def updateStep (r : GPUModelRunner) (out : SchedulerOutput) : Option GPUModelRunner :=
  if out.NamesOnce then next? (updateStates out) r else none

/-- A run in which no new request has a row and no constrained request is moved, latest update first. -/
abbrev ReachesUnmoved (r : GPUModelRunner) : List SchedulerOutput → GPUModelRunner → Prop :=
  Run (fun r out r' => (r.Fresh out ∧ r.MovesUnconstrained out) ∧ r.updateStep out = some r') r

/-- The runner before its first update. -/
def start (maxNumReqs maxModelLen maxNumBlocksPerReq vocabSize : ℕ) : GPUModelRunner :=
  (AuditedRunner.start maxNumReqs maxModelLen maxNumBlocksPerReq vocabSize).runner

/-- Each request in a row has its own logit bias, and no mask unless it asks for one. -/
structure OwnConstraints (r : GPUModelRunner) : Prop where
  logitBias : ∀ (i : ℕ) (id : RequestId), r.inputBatch.reqIds[i]? = some (some id) →
    ∃ state, r.requests.get? id = some state ∧ r.inputBatch.logitBias i = state.samplingParams.logitBias
  unmasked : ∀ (i : ℕ) (id : RequestId) (state : CachedRequestState) (mask : ℕ → TokenId → Bool),
    r.inputBatch.reqIds[i]? = some (some id) → r.requests.get? id = some state →
      r.inputBatch.allowedTokenIdsMaskCpuTensor = some mask → state.samplingParams.allowedTokenIds.getD [] = [] →
        mask i = fun _ => false

theorem WithinConstraints.own (within : WithinConstraints r) : r.OwnConstraints := by
  constructor
  · intro i id there
    obtain ⟨p, params, bias, -⟩ := within.constrained.rows id i ((within.occupied.index id i).mpr there)
    obtain ⟨state, known, rfl⟩ := Option.map_eq_some_iff.mp params
    exact ⟨state, known, bias⟩
  · intro i id state mask there known tensor asksNothing
    obtain ⟨p, params, -, masked⟩ := within.constrained.rows id i ((within.occupied.index id i).mpr there)
    unfold paramsOf at params
    rw [known] at params
    cases params
    unfold maskAt SamplingParams.maskedTokens at masked
    rw [tensor, asksNothing] at masked
    exact masked

theorem withinConstraints_start (maxNumReqs maxModelLen maxNumBlocksPerReq vocabSize : ℕ) :
    WithinConstraints (start maxNumReqs maxModelLen maxNumBlocksPerReq vocabSize) := by
  have begun := AuditedRunner.inStep_start maxNumReqs maxModelLen maxNumBlocksPerReq vocabSize
  refine ⟨begun.occupied, begun.known, ⟨?_, ?_⟩⟩
  · intro id i found
    cases found
  · intro i _
    exact ⟨rfl, rfl⟩

/-- When `condense` moves no request that has constraints, every request in the batch has its own. -/
theorem ownConstraints_of_unmoved {maxNumReqs maxModelLen maxNumBlocksPerReq vocabSize : ℕ} {history : List SchedulerOutput}
    (run : ReachesUnmoved (start maxNumReqs maxModelLen maxNumBlocksPerReq vocabSize) history r) : r.OwnConstraints := by
  have within : WithinConstraints r := by
    induction run with
    | start => exact withinConstraints_start _ _ _ _
    | call _ step ih =>
      obtain ⟨⟨fresh, moves⟩, stepped⟩ := step
      unfold updateStep at stepped
      split at stepped
      · rename_i names
        obtain ⟨u, call⟩ := next?_eq_some.mp stepped
        exact ih.update names fresh moves call
      · cases stepped
  exact within.own

/-! ### A biased request that stays, while another moves -/

section
open AuditedRunner

def biased (data : NewRequestData) : NewRequestData :=
  { data with samplingParams := { data.samplingParams with logitBias := some [(3, 100)] } }

def biasedFirst : SchedulerOutput := batchOf [biased (newRequest 0 [5] [1]), newRequest 1 [6] [2], newRequest 2 [7] [3]] [] []

def lastMoves : SchedulerOutput := batchOf [] [⟨0, false, [8], [], 1⟩, ⟨2, false, [9], [], 1⟩] [1]

def oneMore : SchedulerOutput := batchOf [newRequest 3 [6] [2]] [⟨0, false, [8], [], 2⟩, ⟨2, false, [9], [], 2⟩] []

theorem ownConstraints_oneMore : ∃ r, ReachesUnmoved (start 4 16 4 32) [oneMore, lastMoves, biasedFirst] r ∧
    r.inputBatch.reqIds = [some 0, some 2, some 3] ∧ r.OwnConstraints := by
  have ran : ∃ r, Run (fun r out r' => (if r.Fresh out ∧ r.MovesUnconstrained out then r.updateStep out else none) = some r')
      (start 4 16 4 32) [oneMore, lastMoves, biasedFirst] r ∧ r.inputBatch.reqIds = [some 0, some 2, some 3] := by
    apply Run.exists_of_execute
    decide +kernel
  obtain ⟨r, run, rows⟩ := ran
  have unmoved : ReachesUnmoved (start 4 16 4 32) [oneMore, lastMoves, biasedFirst] r := by
    apply run.mono
    intro r out r' stepped
    split at stepped
    · rename_i meets
      exact ⟨meets, stepped⟩
    · cases stepped
  exact ⟨r, unmoved, rows, ownConstraints_of_unmoved unmoved⟩

end

end GPUModelRunner

/-! ### A biased request that moves -/

namespace Engine
open GPUModelRunner

section
attribute [local instance] sumHash

def biasedRequest (requestId : RequestId) : Request where
  requestId
  samplingParams := { maxTokens := 8, logitBias := some [(3, 100)] }
  promptTokenIds := [7]

def tokensFor (ids : List RequestId) : ModelRunnerOutput where
  reqIdToIndex := ids.zipIdx.foldl (fun d at_ => d.insert at_.1 at_.2) Dict.empty
  sampledTokenIds := ids.map fun _ => [9]

/-- Request 1 moves to the row of request 0, and request 2, which has no bias, comes to the row that it has left. -/
theorem bias_left_behind : ∃ e, Reaches small 4 32 [.schedule, .add (shortRequest 2), .update (tokensFor [1]), .schedule,
    .update (tokensFor [0, 1]), .schedule, .add (biasedRequest 1), .add (shortRequest 0)] e ∧ ¬ e.runner.OwnConstraints := by
  have ran : ∃ e, Reaches small 4 32 [.schedule, .add (shortRequest 2), .update (tokensFor [1]), .schedule,
      .update (tokensFor [0, 1]), .schedule, .add (biasedRequest 1), .add (shortRequest 0)] e ∧
        e.runner.inputBatch.reqIds[1]? = some (some 2) ∧ e.runner.inputBatch.logitBias 1 = some [(3, 100)] ∧
          e.runner.paramsOf 2 = some { maxTokens := 1 } := by
    apply Run.exists_of_execute
    decide +kernel
  obtain ⟨e, reached, row, bias, params⟩ := ran
  refine ⟨e, reached, fun own => ?_⟩
  obtain ⟨state, known, own⟩ := own.logitBias 1 2 row
  unfold paramsOf at params
  rw [known] at params
  rw [bias, Option.some.inj params] at own
  cases own

end

end Engine
end Vllm.V1
