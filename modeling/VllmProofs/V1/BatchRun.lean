import VllmProofs.V1.BatchUpdates
import VllmProofs.V1.Pipeline

/-!
Runs of a runner: between updates the rows are the live requests, without gaps, and each row says what was
last set for its request.
-/

namespace Vllm.V1
open Exec

variable {sampledTokenIds : List (List TokenId)} {u : Unit}

namespace InputBatch

variable {s t : InputBatch} {i j : ℕ} {id : RequestId} {ledger : Ledger}

def sampledRows (i : ℕ) (sampledTokenIds : List (List TokenId)) (s : InputBatch) : InputBatch :=
  { s with
    tokenIdsCpu := fun k =>
      if i ≤ k then overwrite s.maxModelLen (s.tokenIdsCpu k) (s.numTokensNoSpec k) (sampledTokenIds[k - i]?.getD [])
      else s.tokenIdsCpu k }

theorem sampledRows_nil : s.sampledRows i [] = s := by
  unfold sampledRows
  have same : ∀ k, (if i ≤ k then overwrite s.maxModelLen (s.tokenIdsCpu k) (s.numTokensNoSpec k)
      (([] : List (List TokenId))[k - i]?.getD []) else s.tokenIdsCpu k) = s.tokenIdsCpu k := by
    intro k
    rw [List.getElem?_nil, Option.getD_none, BlockTable.overwrite_nil, ite_self]
  rw [funext same]

theorem writeSampled_ok
    (call : writeSampled i sampledTokenIds s = .ok u t) : t = s.sampledRows i sampledTokenIds := by
  induction sampledTokenIds generalizing i s with
  | nil =>
    cases call
    exact sampledRows_nil.symm
  | cons sampledIds rest ih =>
    unfold writeSampled at call
    rw [get_bind] at call
    obtain ⟨_, _, first, call⟩ := bind_ok call
    rw [writeTokenIds_ok first] at call
    rw [ih call]
    unfold sampledRows
    congr 1
    funext k
    rcases Nat.lt_trichotomy k i with before | here | after
    · rw [if_neg (by omega), if_neg (by omega)]
      exact Function.update_of_ne (by omega) _ _
    · rw [if_neg (by omega), if_pos (by omega), here]
      simp
    · rw [if_pos (by omega), if_pos (by omega)]
      dsimp only
      rw [Function.update_of_ne (by omega)]
      have next : k - i = (k - (i + 1)) + 1 := by omega
      rw [next, List.getElem?_cons_succ]

end InputBatch

/-- Sampled tokens come behind the tokens that are no drafts. -/
def Ledger.sampled (ledger : Ledger) (s : InputBatch) (sampledTokenIds : List (List TokenId)) : Ledger := fun id =>
  match s.reqIdToIndex.get? id with
  | some i => (ledger id).map fun entry => entry.write entry.fields.numTokensNoSpec (sampledTokenIds[i]?.getD [])
  | none => ledger id

/-- The requests that are scheduled are in the batch: those that go on with what the scheduler says about
them, the others as the runner knows them. -/
def Ledger.updated (ledger : Ledger) (out : SchedulerOutput) (r : GPUModelRunner) : Ledger := fun id =>
  if id ∈ out.numScheduledTokens.keys then
    match if id ∈ out.finishedReqIds then none else ledger id, out.scheduledCachedReqs.find? (·.reqId = id) with
    | some entry, some data => some (entry.update data (out.draftsOf id)).settle
    | _, _ => (r.requests.get? id).map fun state => (Entry.ofState r.inputBatch.vocabSize state).settle
  else none

namespace InputBatch

variable {s t : InputBatch} {i j : ℕ} {id : RequestId} {ledger : Ledger}

theorem Tracks.sampled (tracks : Tracks s ledger) :
    Tracks (s.sampledRows 0 sampledTokenIds) (ledger.sampled s sampledTokenIds) := by
  intro id i found
  change s.reqIdToIndex.get? id = some i at found
  obtain ⟨entry, listed, shows⟩ := tracks id i found
  obtain ⟨fields, tokenIds, numBlocks, blocks⟩ := shows
  unfold Ledger.sampled
  rw [found, listed]
  refine ⟨_, rfl, fields, ?_, numBlocks, blocks⟩
  have from_ : s.numTokensNoSpec i = entry.fields.numTokensNoSpec := congrArg RowFields.numTokensNoSpec fields
  have row : (s.sampledRows 0 sampledTokenIds).tokenIdsCpu i = overwrite s.maxModelLen (s.tokenIdsCpu i)
      entry.fields.numTokensNoSpec (sampledTokenIds[i]?.getD []) := by
    rw [← from_]
    rfl
  rw [row]
  exact agrees_write tokenIds

theorem Tracks.congr {ledger' : Ledger} (tracks : Tracks s ledger)
    (same : ∀ id i, s.reqIdToIndex.get? id = some i → ledger' id = ledger id) : Tracks s ledger' := by
  intro id i found
  rw [same id i found]
  exact tracks id i found

theorem Tracks.cut (tracks : Tracks s ledger) (reqIds : List (Option RequestId)) : Tracks { s with reqIds } ledger := by
  intro id i found
  obtain ⟨entry, listed, shows⟩ := tracks id i found
  exact ⟨entry, listed, shows.carry ⟨rfl, rfl, rfl, rfl⟩ ⟨rfl, rfl, rfl, rfl⟩⟩

/-- The rows are the requests of the ledger, and say what was last set for them. -/
structure Faithful (s : InputBatch) (ledger : Ledger) : Prop where
  index : ∀ id i, s.reqIdToIndex.get? id = some i ↔ s.reqIds[i]? = some (some id)
  full : ∀ i < s.numReqs, ∃ id, s.reqIds[i]? = some (some id)
  length : s.reqIds.length = s.numReqs
  live : ∀ id, (ledger id).isSome ↔ (s.reqIdToIndex.get? id).isSome
  tracks : Tracks s ledger

theorem faithful (occupied : Occupied s []) (live : ∀ id, (ledger id).isSome ↔ (s.reqIdToIndex.get? id).isSome)
    (tracks : Tracks s ledger) : Faithful s ledger := by
  have total := occupied.total
  rw [List.length_nil, Nat.add_zero] at total
  refine ⟨occupied.index, ?_, total.symm, live, tracks⟩
  intro i less
  rw [total] at less
  exact isLive_iff.mp ((occupied.live_or_empty less).mpr List.not_mem_nil)

end InputBatch

/-- While an update is going on: the requests of `rest` have not been written yet. -/
def Ledger.during (ledger : Ledger) (out : SchedulerOutput) (r : GPUModelRunner) (rest : List CachedRequestData) :
    Ledger := fun id =>
  match if id ∈ out.finishedReqIds then none else ledger id, out.scheduledCachedReqs.find? (·.reqId = id) with
  | some entry, some data =>
    if id ∈ rest.map CachedRequestData.reqId then some entry else some (entry.update data (out.draftsOf id))
  | _, _ => (r.requests.get? id).map (Entry.ofState r.inputBatch.vocabSize)

namespace GPUModelRunner
open InputBatch

variable {r r' : GPUModelRunner} {out : SchedulerOutput} {ledger : Ledger}

structure Updating (r r' : GPUModelRunner) (ledger : Ledger) (out : SchedulerOutput) (rest : List CachedRequestData)
    (v : InputBatch) : Prop where
  suffix : ∃ written, out.scheduledCachedReqs = written ++ rest
  sizes : v.vocabSize = r'.inputBatch.vocabSize
  writing : rest ≠ [] → ∀ id i, v.reqIdToIndex.get? id = some i → id ∉ out.finishedReqIds ∧ (ledger id).isSome
  kept : ∀ id ∈ out.numScheduledTokens.keys, id ∉ out.finishedReqIds → (ledger id).isSome → (v.reqIdToIndex.get? id).isSome
  tracks : Tracks v (ledger.during out r' rest)

variable {v : InputBatch}

theorem updating_start (names : out.NamesOnce) (fresh : r.Fresh out)
    (live : ∀ id, (ledger id).isSome ↔ (r.inputBatch.reqIdToIndex.get? id).isSome)
    (sizes : v.vocabSize = r'.inputBatch.vocabSize) (tracks : Tracks v ledger)
    (index : ∀ id, v.reqIdToIndex.get? id =
      if id ∈ out.numScheduledTokens.keys ∧ id ∉ out.finishedReqIds then r.inputBatch.reqIdToIndex.get? id else none) :
    Updating r r' ledger out out.scheduledCachedReqs v := by
  refine ⟨⟨[], rfl⟩, sizes, ?_, ?_, ?_⟩
  · intro _ id i found
    rw [index] at found
    split at found
    · rename_i both
      refine ⟨both.2, (live id).mpr ?_⟩
      rw [found]
      rfl
    · cases found
  · intro id key goesOn had
    rw [index, if_pos ⟨key, goesOn⟩]
    exact (live id).mp had
  · intro id i found
    obtain ⟨entry, listed, shows⟩ := tracks id i found
    have row := index id
    rw [found] at row
    split at row
    · rename_i both
      have cached : id ∈ out.scheduledCachedReqs.map CachedRequestData.reqId := by
        apply (List.mem_append.mp (names.2.1 id both.1)).resolve_left
        intro new
        obtain ⟨data, member, rfl⟩ := List.mem_map.mp new
        rcases fresh data member with absent | ended
        · rw [absent] at row
          cases row
        · exact both.2 ended
      refine ⟨entry, ?_, shows⟩
      unfold Ledger.during
      rw [if_neg both.2, listed]
      cases found : out.scheduledCachedReqs.find? (·.reqId = id) with
      | none =>
        obtain ⟨data, member, same⟩ := List.mem_map.mp cached
        have other := List.find?_eq_none.mp found data member
        rw [same] at other
        exact absurd (decide_eq_true rfl) other
      | some data => exact if_pos cached
    · cases row

variable {data : CachedRequestData} {rest : List CachedRequestData}

theorem during_other {id : RequestId} (other : id ≠ data.reqId) :
    ledger.during out r' rest id = ledger.during out r' (data :: rest) id := by
  unfold Ledger.during
  have same : id ∈ (data :: rest).map CachedRequestData.reqId ↔ id ∈ rest.map CachedRequestData.reqId := by
    rw [List.map_cons, List.mem_cons]
    exact ⟨fun either => either.resolve_left other, Or.inr⟩
  simp only [same]

theorem find?_written {written : List CachedRequestData}
    (nodup : (out.scheduledCachedReqs.map CachedRequestData.reqId).Nodup)
    (suffix : out.scheduledCachedReqs = written ++ data :: rest) :
    out.scheduledCachedReqs.find? (·.reqId = data.reqId) = some data ∧ data.reqId ∉ rest.map CachedRequestData.reqId := by
  rw [suffix, List.map_append, List.map_cons, List.nodup_middle, List.nodup_cons, List.mem_append] at nodup
  constructor
  · rw [suffix, List.find?_append, List.find?_eq_none.mpr, Option.none_or, List.find?_cons_of_pos]
    · exact decide_eq_true rfl
    intro other member same
    apply nodup.1
    left
    rw [← of_decide_eq_true same]
    exact List.mem_map_of_mem member
  · exact fun later => nodup.1 (.inr later)

theorem updating_row {holes : List ℕ} {i : ℕ}
    (names : out.NamesOnce) (occupied : Occupied v holes) (found : v.reqIdToIndex.get? data.reqId = some i)
    (updating : Updating r r' ledger out (data :: rest) v) :
    Updating r r' ledger out rest (v.rowUpdated i data (out.draftsOf data.reqId)) := by
  obtain ⟨⟨written, suffix⟩, sizes, writing, kept, tracks⟩ := updating
  have live := writing (List.cons_ne_nil _ _)
  refine ⟨⟨written ++ [data], by rw [suffix, List.append_assoc]; rfl⟩, sizes, fun _ => live, kept, ?_⟩
  apply (tracks.updateRow occupied found).congr
  intro id _ _
  by_cases mine : id = data.reqId
  · obtain ⟨goesOn, had⟩ := live data.reqId i found
    obtain ⟨entry, listed⟩ := Option.isSome_iff_exists.mp had
    obtain ⟨first, once⟩ := find?_written (List.nodup_append.mp names.1).2.1 suffix
    rw [mine, Function.update_self]
    unfold Ledger.during
    rw [if_neg goesOn, listed, first]
    dsimp only
    rw [if_neg once, if_pos (by rw [List.map_cons]; exact List.mem_cons_self)]
    rfl
  · rw [Function.update_of_ne mine]
    exact during_other mine

theorem updating_skip
    (absent : v.reqIdToIndex.get? data.reqId = none) (updating : Updating r r' ledger out (data :: rest) v) :
    Updating r r' ledger out rest v := by
  obtain ⟨⟨written, suffix⟩, sizes, writing, kept, tracks⟩ := updating
  refine ⟨⟨written ++ [data], by rw [suffix, List.append_assoc]; rfl⟩, sizes, fun _ => writing (List.cons_ne_nil _ _),
    kept, ?_⟩
  apply tracks.congr
  intro id i found
  apply during_other
  rintro rfl
  rw [absent] at found
  cases found

theorem updating_add {holes : List ℕ} {i : ℕ} {state : CachedRequestState}
    (scheduled : state.reqId ∈ out.numScheduledTokens.keys) (occupied : Occupied v holes)
    (next : NextRow v i) (absent : v.reqIdToIndex.get? state.reqId = none)
    (known : r'.requests.get? state.reqId = some state) (updating : Updating r r' ledger out [] v) :
    Updating r r' ledger out [] (v.added i state) := by
  obtain ⟨suffix, sizes, -, kept, tracks⟩ := updating
  have same := sameSizes_added i state v
  refine ⟨suffix, same.vocabSize.trans sizes, fun some_ => absurd rfl some_, ?_, ?_⟩
  · intro id key goesOn had
    rw [added_reqIdToIndex, Dict.get?_insert]
    split
    · rfl
    · exact kept id key goesOn had
  · apply (tracks.add occupied next.vacant).congr
    intro id _ _
    by_cases mine : id = state.reqId
    · have new : (if id ∈ out.finishedReqIds then none else ledger id) = none := by
        split
        · rfl
        · rename_i goesOn
          rw [mine] at goesOn ⊢
          by_contra had
          have live := kept _ scheduled goesOn (Option.isSome_iff_ne_none.mpr had)
          rw [absent] at live
          cases live
      unfold Ledger.during
      rw [new, mine, known, Function.update_self, sizes]
      rfl
    · rw [Function.update_of_ne mine]

theorem updateStates_vocabSize (names : out.NamesOnce) (fresh : r.Fresh out) (known : r.Known)
    (occupied : Occupied r.inputBatch []) (call : updateStates out r = .ok u r') :
    r'.inputBatch.vocabSize = r.inputBatch.vocabSize := by
  refine (updateStates_rule (A := fun v => v.vocabSize = r.inputBatch.vocabSize)
    (I := fun _ v => v.vocabSize = r.inputBatch.vocabSize) (J := fun v => v.vocabSize = r.inputBatch.vocabSize)
    ?_ ?_ ?_ ?_ ?_ ?_ ?_ ?_ names fresh known occupied rfl call).1
  case refine_5 =>
    intro v holes i state _ _ _ _ _ same
    exact (sameSizes_added i state v).vocabSize.trans same
  all_goals intros
  all_goals assumption

/-- Between updates: the rows are the requests, and what they say is in the ledger. -/
structure InStep (r : GPUModelRunner) (ledger : Ledger) : Prop where
  occupied : Occupied r.inputBatch []
  known : r.Known
  live : ∀ id, (ledger id).isSome ↔ (r.inputBatch.reqIdToIndex.get? id).isSome
  tracks : Tracks r.inputBatch ledger

/-- After an update the batch has what the runner was told. -/
theorem InStep.update (inStep : InStep r ledger) (names : out.NamesOnce) (fresh : r.Fresh out)
    (call : updateStates out r = .ok u r') : InStep r' (ledger.updated out r') := by
  obtain ⟨occupied, known, live, tracks⟩ := inStep
  have vocabSize := updateStates_vocabSize names fresh known occupied call
  obtain ⟨tracks, occupied, known, scheduled⟩ := updateStates_rule
    (A := fun v => v.vocabSize = r'.inputBatch.vocabSize ∧ Tracks v ledger)
    (I := Updating r r' ledger out) (J := fun v => Tracks v (ledger.during out r' []).settle)
    (fun v holes i id loras occupied found both => ⟨both.1, both.2.remove occupied found⟩)
    (fun v both index => updating_start names fresh live both.1 both.2 index)
    (fun v holes data rest i occupied found updating => updating_row names occupied found updating)
    (fun v data rest absent updating => updating_skip absent updating)
    (fun v holes i state key occupied next absent known updating =>
      updating_add key occupied next absent known updating)
    (fun v updating => updating.tracks.settle)
    (fun v last empty id tracks _ movable => tracks.move movable)
    (fun v reqIds _ tracks => tracks.cut reqIds)
    names fresh known occupied ⟨vocabSize.symm, tracks⟩ call
  have told : Tracks r'.inputBatch (ledger.updated out r') := by
    apply tracks.congr
    intro id i found
    have key : id ∈ out.numScheduledTokens.keys := by
      rw [← scheduled, found]
      rfl
    unfold Ledger.updated Ledger.settle Ledger.during
    rw [if_pos key]
    split
    · rfl
    · rw [Option.map_map]
      rfl
  refine ⟨occupied, known, fun id => ⟨?_, ?_⟩, told⟩
  · intro listed
    rw [scheduled]
    by_contra other
    unfold Ledger.updated at listed
    rw [if_neg other] at listed
    cases listed
  · intro row
    obtain ⟨i, found⟩ := Option.isSome_iff_exists.mp row
    obtain ⟨entry, listed, -⟩ := told id i found
    rw [listed]
    rfl

theorem InStep.swap {i1 i2 : ℕ} (inStep : InStep r ledger)
    (call : onInputBatch (swapStates i1 i2) r = .ok u r') : InStep r' ledger := by
  obtain ⟨occupied, known, live, tracks⟩ := inStep
  obtain ⟨v, swap, rfl⟩ := zoom_ok call
  obtain ⟨id1, id2, first, second, rfl⟩ := swapStates_ok swap
  refine ⟨occupied.swap first second, known, fun id => (live id).trans ?_, tracks.swap occupied first second⟩
  have index : (r.inputBatch.swapped i1 i2 id1 id2).reqIdToIndex =
      (r.inputBatch.reqIdToIndex.insert id1 i2).insert id2 i1 := rfl
  show _ ↔ ((r.inputBatch.swapped i1 i2 id1 id2).reqIdToIndex.get? id).isSome
  rw [index, Dict.get?_insert, Dict.get?_insert]
  split
  · rename_i second'
    rw [second', (occupied.index id2 i2).mpr second]
    exact Iff.rfl
  · split
    · rename_i first'
      rw [first', (occupied.index id1 i1).mpr first]
      exact Iff.rfl
    · exact Iff.rfl

theorem InStep.sampled (inStep : InStep r ledger)
    (call : onInputBatch (writeSampled 0 sampledTokenIds) r = .ok u r') :
    InStep r' (ledger.sampled r.inputBatch sampledTokenIds) := by
  obtain ⟨occupied, known, live, tracks⟩ := inStep
  obtain ⟨v, write, rfl⟩ := zoom_ok call
  rw [writeSampled_ok write]
  refine ⟨⟨occupied.index, occupied.empty, occupied.nodup, occupied.clean⟩, known, fun id => ?_, tracks.sampled⟩
  show _ ↔ (r.inputBatch.reqIdToIndex.get? id).isSome = true
  rw [← live id]
  unfold Ledger.sampled
  split
  · rw [Option.isSome_map]
  · exact Iff.rfl

end GPUModelRunner

inductive BatchEvent where
  | update (out : SchedulerOutput)
  /-- The attention backend changes the order of the batch. -/
  | swap (i1 i2 : ℕ)
  /-- Sampled tokens are written for the drafter. -/
  | sampled (sampledTokenIds : List (List TokenId))

structure AuditedRunner where
  runner : GPUModelRunner
  ledger : Ledger := fun _ => none

namespace AuditedRunner
open InputBatch GPUModelRunner

def start (maxNumReqs maxModelLen maxNumBlocksPerReq vocabSize : ℕ) : AuditedRunner where
  runner := { inputBatch := { maxNumReqs, maxModelLen, vocabSize, blockTable := { maxNumBlocksPerReq } } }

/-- There is no next state when the call raises. A scheduler names each request it schedules once. -/
def step (a : AuditedRunner) : BatchEvent → Option AuditedRunner
  | .update out =>
    if out.NamesOnce then do
      let runner ← next? (updateStates out) a.runner
      return { runner, ledger := a.ledger.updated out runner }
    else none
  | .swap i1 i2 => do
    let runner ← next? (onInputBatch (swapStates i1 i2)) a.runner
    return { a with runner }
  | .sampled sampledTokenIds => do
    let runner ← next? (onInputBatch (writeSampled 0 sampledTokenIds)) a.runner
    return { runner, ledger := a.ledger.sampled a.runner.inputBatch sampledTokenIds }

/-- A request that is new to the runner has no row, unless the update says that it is finished. -/
def Meets (a : AuditedRunner) : BatchEvent → Prop
  | .update out => a.runner.Fresh out
  | _ => True

instance (a : AuditedRunner) (event : BatchEvent) : Decidable (a.Meets event) :=
  match event with
  | .update out => inferInstanceAs (Decidable (a.runner.Fresh out))
  | .swap _ _ => isTrue trivial
  | .sampled _ => isTrue trivial

/-- A run in which every update meets the condition, latest event first. -/
abbrev ReachesFresh (a : AuditedRunner) : List BatchEvent → AuditedRunner → Prop :=
  Run (fun b event b' => b.Meets event ∧ b.step event = some b') a

variable {a b b' : AuditedRunner} {event : BatchEvent}

theorem inStep_step (inStep : InStep b.runner b.ledger) (meets : b.Meets event) (step : b.step event = some b') :
    InStep b'.runner b'.ledger := by
  cases event with
  | update out =>
    unfold AuditedRunner.step at step
    dsimp only at step
    split at step
    · rename_i names
      obtain ⟨t, next, done⟩ := Option.bind_eq_some_iff.mp step
      obtain ⟨u, call⟩ := next?_eq_some.mp next
      cases done
      exact inStep.update names meets call
    · cases step
  | swap i1 i2 =>
    obtain ⟨t, next, done⟩ := Option.bind_eq_some_iff.mp step
    obtain ⟨u, call⟩ := next?_eq_some.mp next
    cases done
    exact inStep.swap call
  | sampled sampledTokenIds =>
    obtain ⟨t, next, done⟩ := Option.bind_eq_some_iff.mp step
    obtain ⟨u, call⟩ := next?_eq_some.mp next
    cases done
    exact inStep.sampled call

theorem inStep_start (maxNumReqs maxModelLen maxNumBlocksPerReq vocabSize : ℕ) :
    InStep (start maxNumReqs maxModelLen maxNumBlocksPerReq vocabSize).runner
      (start maxNumReqs maxModelLen maxNumBlocksPerReq vocabSize).ledger := by
  refine ⟨⟨?_, ?_, List.nodup_nil, ?_⟩, ?_, ?_, ?_⟩
  · intro id i
    exact ⟨nofun, nofun⟩
  · intro i
    exact ⟨nofun, nofun⟩
  · intro i _
    exact ⟨rfl, rfl, rfl⟩
  · intro id state found
    cases found
  · intro id
    exact Iff.rfl
  · intro id i found
    cases found

/-- When no request that is new to the runner has a row, after every run the rows are the live requests, and each
row says what was last set for its request. -/
theorem faithful_of_fresh {maxNumReqs maxModelLen maxNumBlocksPerReq vocabSize : ℕ} {history : List BatchEvent}
    (run : ReachesFresh (start maxNumReqs maxModelLen maxNumBlocksPerReq vocabSize) history a) :
    Faithful a.runner.inputBatch a.ledger := by
  have inStep : InStep a.runner a.ledger := by
    induction run with
    | start => exact inStep_start _ _ _ _
    | call _ step ih => exact inStep_step ih step.1 step.2
  exact faithful inStep.occupied inStep.live inStep.tracks

/-! ### Three requests, of which the first finishes -/

def newRequest (reqId : RequestId) (promptTokenIds : List TokenId) (blockIds : List BlockId) : NewRequestData where
  reqId
  promptTokenIds
  mmInputs := []
  mmHashes := []
  mmPositions := {}
  samplingParams := { maxTokens := 4 }
  blockIds
  numComputedTokens := 0
  loraRequest := none

def batchOf (new : List NewRequestData) (cached : List CachedRequestData) (finishedReqIds : List RequestId) :
    SchedulerOutput where
  scheduledNewReqs := new
  scheduledCachedReqs := cached
  numScheduledTokens := (new.map NewRequestData.reqId ++ cached.map CachedRequestData.reqId).foldl
    (fun d id => d.insert id 1) Dict.empty
  totalNumScheduledTokens := new.length + cached.length
  scheduledSpecDecodeTokens := ∅
  scheduledEncoderInputs := ∅
  numCommonPrefixBlocks := 0
  finishedReqIds
  freeEncoderInputIds := []
  structuredOutputRequestIds := ∅

def firstBatch : SchedulerOutput := batchOf [newRequest 0 [5] [1], newRequest 1 [6] [2], newRequest 2 [7] [3]] [] []

def secondBatch : SchedulerOutput := batchOf [] [⟨1, false, [8], [4], 1⟩, ⟨2, false, [9], [], 1⟩] [0]

theorem faithful_secondBatch : ∃ a, ReachesFresh (start 4 16 4 32)
    [.update secondBatch, .sampled [[8], [3], [9]], .swap 0 1, .update firstBatch] a ∧
      a.runner.inputBatch.reqIds = [some 1, some 2] ∧ Faithful a.runner.inputBatch a.ledger := by
  have ran : ∃ a, Run (fun b event b' => (if b.Meets event then b.step event else none) = some b') (start 4 16 4 32)
      [.update secondBatch, .sampled [[8], [3], [9]], .swap 0 1, .update firstBatch] a ∧
        a.runner.inputBatch.reqIds = [some 1, some 2] := by
    apply Run.exists_of_execute
    decide +kernel
  obtain ⟨a, run, rows⟩ := ran
  have fresh : ReachesFresh (start 4 16 4 32)
      [.update secondBatch, .sampled [[8], [3], [9]], .swap 0 1, .update firstBatch] a := by
    apply run.mono
    intro b event b' stepped
    split at stepped
    · rename_i meets
      exact ⟨meets, stepped⟩
    · cases stepped
  exact ⟨a, fresh, rows, faithful_of_fresh fresh⟩

end AuditedRunner
end Vllm.V1
