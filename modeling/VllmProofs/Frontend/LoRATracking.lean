import VllmProofs.Data.Confined
import VllmProofs.Data.Runs
import VllmProofs.Frontend.OutputProcessor

/-!
Whether `lora_states` of the output processor follows the requests: in every run in which outputs with
statistics bring events in order, and no request with an adapter finishes without statistics.
-/

namespace Vllm.Frontend
open Exec

namespace RequestState

variable {L : Type} [Tokenizer]

omit [Tokenizer] in
theorem makeRequestOutput_requestId (newTokenIds : List TokenId) (finishReason : Option FinishReason)
    (stopReason : Option StopReason) (parentReq : Option (ParentRequest L)) (s : RequestState L) :
    (s.makeRequestOutput newTokenIds finishReason stopReason parentReq).2.2.requestId = s.requestId := by
  have newOutput : ∀ (id : RequestId) finished (s : RequestState L), (s.newRequestOutput id finished).2.requestId = s.requestId := by
    intro id finished s
    unfold newRequestOutput
    dsimp only
    split <;> rfl
  unfold makeRequestOutput
  dsimp only
  split
  · rfl
  · cases parentReq with
    | none => exact newOutput _ _ _
    | some parent =>
      dsimp only
      unfold makeParentOutput
      cases parent.outputAggregator with
      | none =>
        dsimp only
        split
        · exact newOutput _ _ _
        · exact newOutput _ _ _
      | some requestOutput =>
        dsimp only
        split <;> rfl

variable {parentReq : Option (ParentRequest L)}

omit [Tokenizer] in
theorem makeRequestOutput_parent {newTokenIds : List TokenId} {finishReason : Option FinishReason}
    {stopReason : Option StopReason} {s : RequestState L} {after : ParentRequest L}
    (made : (s.makeRequestOutput newTokenIds finishReason stopReason parentReq).2.1 = some after) :
    ∃ before, parentReq = some before ∧ after.childRequests = before.childRequests := by
  unfold makeRequestOutput at made
  dsimp only at made
  split at made
  · exact ⟨after, made, rfl⟩
  · cases parentReq with
    | none => cases made
    | some parent =>
      refine ⟨parent, rfl, ?_⟩
      dsimp only at made
      unfold makeParentOutput at made
      cases aggregated : parent.outputAggregator with
      | none =>
        rw [aggregated] at made
        dsimp only at made
        split at made
        · cases made
          rfl
        · cases made
          rfl
      | some requestOutput =>
        rw [aggregated] at made
        dsimp only at made
        split at made
        · cases made
          rfl
        · cases made
          rfl

/-- The output finishes the request, in the engine core or by a stop string. -/
def Finishes (s : RequestState L) (output : EngineCoreOutput L) : Prop :=
  ∃ made, s.processOutput output none = some made ∧ made.finishReason.isSome = true

theorem processOutput_ok {s : RequestState L} {output : EngineCoreOutput L}
    {made : Processed L} (processed : s.processOutput output parentReq = some made) :
    made.state.requestId = s.requestId ∧
      (∀ after, made.parentReq = some after →
        ∃ before, parentReq = some before ∧ after.childRequests = before.childRequests) ∧
      (s.Finishes output ↔ made.finishReason.isSome = true) := by
  unfold processOutput at processed
  unfold Finishes processOutput
  cases updated : s.logprobsProcessor.updateFromOutput output with
  | none =>
    rw [updated] at processed
    cases processed
  | some logprobsProcessor =>
    rw [updated] at processed
    cases processed
    refine ⟨makeRequestOutput_requestId _ _ _ _ _, fun after made => makeRequestOutput_parent made, ?_⟩
    simp

end RequestState

namespace OutputProcessor

variable {L : Type}

/-- The processor's requests and `lora_states` agree with the view. -/
structure Represents (s : OutputProcessor L) (live : Live) : Prop where
  places : Places s.loraStates live
  known : ∀ id, (s.requestStates.get? id).bind RequestRecord.loraName = (live id).map Prod.fst
  ids : ∀ id record, s.requestStates.get? id = some record → record.state.requestId = id
  children : ∀ id record parentReq, s.requestStates.get? id = some record → record.parentReq = some parentReq →
    ∃ parent, s.parents[parentReq]? = some parent ∧ id ∈ parent.childRequests

variable {s : OutputProcessor L} {live : Live} {id : RequestId} {record : RequestRecord L}

theorem Represents.adapter (represents : Represents s live) (found : s.requestStates.get? id = some record) :
    record.loraName = (live id).map Prod.fst := by
  rw [← represents.known, found]
  rfl

theorem Represents.new (represents : Represents s live) (missing : s.requestStates.get? id = none) :
    live id = none := by
  have known := represents.known id
  rw [missing] at known
  exact Option.map_eq_none_iff.mp known.symm

theorem Represents.frame {t : OutputProcessor L} (represents : Represents s live)
    (requests : t.requestStates = s.requestStates) (places : Places t.loraStates live) (parents : t.parents = s.parents) :
    Represents t live := by
  refine ⟨places, ?_, ?_, ?_⟩
  · rw [requests]
    exact represents.known
  · rw [requests]
    exact represents.ids
  · rw [requests, parents]
    exact represents.children

variable {loraStates : LoRARequestStates}

theorem Represents.move {name : LoRAName} {before after : Standing}
    (represents : Represents s live) (stands : live id = some (name, before))
    (places : Places loraStates (Function.update live id (some (name, after)))) :
    Represents { s with loraStates } (Function.update live id (some (name, after))) := by
  refine ⟨places, fun other => ?_, represents.ids, represents.children⟩
  rw [represents.known]
  by_cases same : other = id
  · rw [same, Function.update_self, stands]
    rfl
  · rw [Function.update_of_ne same]

theorem Represents.setRecord (record' : RequestRecord L) (represents : Represents s live)
    (found : s.requestStates.get? id = some record) (adapter : record'.loraName = record.loraName)
    (parentReq : record'.parentReq = record.parentReq) (named : record'.state.requestId = id) :
    Represents { s with requestStates := s.requestStates.insert id record' } live := by
  refine ⟨represents.places, fun other => ?_, fun other entry held => ?_, fun other entry p held child => ?_⟩
  · rw [← represents.known, Dict.get?_insert]
    split
    · rename_i same
      rw [same, found]
      exact adapter
    · rfl
  · change (s.requestStates.insert id record').get? other = some entry at held
    rw [Dict.get?_insert] at held
    split at held
    · rename_i same
      cases held
      exact named.trans same.symm
    · exact represents.ids other entry held
  · change (s.requestStates.insert id record').get? other = some entry at held
    rw [Dict.get?_insert] at held
    split at held
    · rename_i same
      cases held
      exact same ▸ represents.children id record p found (parentReq ▸ child)
    · exact represents.children other entry p held child

theorem Represents.onParent {parentReq : ParentRef} {f : ParentRequest L → ParentRequest L}
    (represents : Represents s live)
    (keeps : ∀ parent, s.parents[parentReq]? = some parent → ∀ child ∈ parent.childRequests, child ∈ (f parent).childRequests) :
    Represents { s with parents := s.parents.modify parentReq f } live := by
  refine ⟨represents.places, represents.known, represents.ids, fun other entry p held child => ?_⟩
  obtain ⟨parent, there, member⟩ := represents.children other entry p held child
  by_cases same : parentReq = p
  · subst same
    exact ⟨f parent, by simp [there], keeps parent there other member⟩
  · exact ⟨parent, by simp [there, same], member⟩

/-- The parents, once a request is none of their children. -/
def released (parents : List (ParentRequest L)) (requestId : RequestId) : Option ParentRef → List (ParentRequest L)
  | none => parents
  | some parentReq => parents.modify parentReq fun parent =>
    { parent with childRequests := parent.childRequests.erase requestId }

theorem finishChildRequest_ok {t : OutputProcessor L} (represents : Represents s live)
    (found : s.requestStates.get? id = some record) (parents : t.parents = s.parents) :
    finishChildRequest id record.parentReq t = .ok () { t with parents := released t.parents id record.parentReq } := by
  cases child : record.parentReq with
  | none => rfl
  | some parentReq =>
    obtain ⟨parent, there, member⟩ := represents.children id record parentReq found child
    simp [finishChildRequest, OutputProcessor.onParent, released, parents, there, member]

theorem Represents.forget (represents : Represents s live)
    (parentReq : Option ParentRef) (places : Places loraStates (Function.update live id none)) :
    Represents { s with
      requestStates := s.requestStates.erase id
      loraStates
      parents := released s.parents id parentReq } (Function.update live id none) := by
  refine ⟨places, fun other => ?_, fun other entry held => ?_, fun other entry p held child => ?_⟩
  · show ((s.requestStates.erase id).get? other).bind _ = _
    rw [Dict.get?_erase]
    by_cases same : other = id
    · simp [same]
    · rw [if_neg same, represents.known, Function.update_of_ne same]
  · change (s.requestStates.erase id).get? other = some entry at held
    rw [Dict.get?_erase] at held
    split at held
    · cases held
    · exact represents.ids other entry held
  · change (s.requestStates.erase id).get? other = some entry at held
    rw [Dict.get?_erase] at held
    split at held
    · cases held
    · rename_i different
      obtain ⟨parent, there, member⟩ := represents.children other entry p held child
      show ∃ parent, (released s.parents id parentReq)[p]? = some parent ∧ other ∈ parent.childRequests
      cases parentReq with
      | none => exact ⟨parent, there, member⟩
      | some parentReq =>
        by_cases same : parentReq = p
        · subst same
          exact ⟨_, by simp [released, there]; rfl, (List.mem_erase_of_ne different).mpr member⟩
        · exact ⟨parent, by simp [released, there, same], member⟩

theorem onLora_ok {α : Type} {x : Method LoRARequestStates α} {a : α}
    (call : x s.loraStates = .ok a loraStates) : onLora x s = .ok a { s with loraStates } := by
  simp [onLora, zoom, call]

/-- There is a view that the processor agrees with. -/
def Tracked (s : OutputProcessor L) : Prop := ∃ live, Represents s live

/-! ### Aborts and new requests -/

theorem abortRequests_tracked (ids : List RequestId) (tracked : Tracked s) :
    ∃ t, abortRequests ids s = .ok () t ∧ Tracked t := by
  induction ids generalizing s with
  | nil => exact ⟨s, rfl, tracked⟩
  | cons id rest ih =>
    obtain ⟨live, represents⟩ := tracked
    cases found : s.requestStates.get? id with
    | none =>
      obtain ⟨t, call, kept⟩ := ih ⟨live, represents⟩
      exact ⟨t, by simp [abortRequests, found, call], kept⟩
    | some record =>
      obtain ⟨loraStates, aborted, places⟩ :=
        LoRARequestStates.abortRequest_places represents.places (represents.adapter found).symm
      obtain ⟨t, call, kept⟩ := ih ⟨_, represents.forget record.parentReq places⟩
      refine ⟨t, ?_, kept⟩
      rw [abortRequests, get_bind, found]
      dsimp only
      rw [set_bind, represents.ids id record found, bind_of_ok (onLora_ok (s := { s with requestStates := s.requestStates.erase id }) aborted),
        bind_of_ok (finishChildRequest_ok (t := { s with requestStates := s.requestStates.erase id, loraStates })
          represents found rfl)]
      exact call

/-- A new request waits; one under an id in use is refused. -/
theorem addRequest_tracked (request : EngineCoreRequest) (loraName : Option LoRAName) (parentReq : Option ParentRef)
    (requestIndex : ℕ) (queued : Bool) (tracked : Tracked s)
    (child : ∀ p ∈ parentReq, ∃ parent, s.parents[p]? = some parent ∧ request.requestId ∈ parent.childRequests) :
    wp (addRequest request loraName parentReq requestIndex queued)
      (fun _ t => Tracked t ∧ t.parents = s.parents)
      (fun e t => e ≠ .keyError ∧ Tracked t) s := by
  obtain ⟨live, represents⟩ := tracked
  rw [addRequest, wp_bind, wp_get]
  dsimp only
  cases missing : s.requestStates.get? request.requestId with
  | some record =>
    rw [if_pos (Dict.contains_iff.mpr ⟨record, missing⟩), wp_throw]
    exact ⟨nofun, live, represents⟩
  | none =>
    rw [if_neg (by simp [Dict.not_contains_iff.mpr missing]), wp_bind, setRecord, wp_modify]
    obtain ⟨loraStates, added, places⟩ :=
      LoRARequestStates.addRequest_places represents.places (represents.new missing) loraName
    rw [show (RequestState.fromNewRequest request requestIndex : RequestState L).requestId = request.requestId from rfl,
      wp_of_ok (onLora_ok (s := { s with requestStates := s.requestStates.insert request.requestId _ }) added)]
    refine ⟨⟨_, places, fun other => ?_, fun other entry held => ?_, fun other entry p held of => ?_⟩, rfl⟩
    · show ((s.requestStates.insert request.requestId _).get? other).bind _ = _
      rw [Dict.get?_insert]
      by_cases same : other = request.requestId
      · rw [if_pos same, same, Function.update_self, Option.map_map]
        cases loraName <;> rfl
      · rw [if_neg same, Function.update_of_ne same, represents.known]
    · change (s.requestStates.insert request.requestId _).get? other = some entry at held
      rw [Dict.get?_insert] at held
      split at held
      · rename_i same
        cases held
        exact same.symm
      · exact represents.ids other entry held
    · change (s.requestStates.insert request.requestId _).get? other = some entry at held
      rw [Dict.get?_insert] at held
      split at held
      · rename_i same
        cases held
        exact same ▸ child p of
      · exact represents.children other entry p held of

theorem addChildren_tracked {parentReq : ParentRef} (request : EngineCoreRequest) (loraName : Option LoRAName)
    (queued : Bool) (indexes : List ℕ) (tracked : Tracked s) (known : parentReq < s.parents.length) :
    wp (addChildren request loraName parentReq queued indexes) (fun _ t => Tracked t)
      (fun e t => e ≠ .keyError ∧ Tracked t) s := by
  induction indexes generalizing s with
  | nil => exact tracked
  | cons index rest ih =>
    obtain ⟨live, represents⟩ := tracked
    rw [addChildren, wp_bind, OutputProcessor.onParent, wp_modify, wp_bind]
    refine (addRequest_tracked _ _ _ _ _ ⟨live, represents.onParent ?_⟩ ?_).mono ?_ fun _ _ failed => failed
    · intro parent _ child member
      exact List.mem_insert_of_mem member
    · intro p same
      cases same
      exact ⟨_, by simp [List.getElem?_eq_getElem known]; rfl, List.mem_insert_self⟩
    · rintro _ t ⟨kept, parents⟩
      refine ih kept ?_
      rw [parents]
      simpa using known

theorem addFromEngine_tracked (request : EngineCoreRequest) (loraName : Option LoRAName) (queued : Bool)
    (tracked : Tracked s) : wp (addFromEngine request loraName queued) (fun _ t => Tracked t)
      (fun e t => e ≠ .keyError ∧ Tracked t) s := by
  rw [addFromEngine, wp_ite]
  refine ⟨fun _ => ?_, fun _ => ?_⟩
  · exact (addRequest_tracked request loraName none 0 queued tracked fun p member => nomatch member).mono
      (fun _ _ done => done.1) fun _ _ failed => failed
  · rw [wp_bind, wp_get]
    dsimp only
    rw [wp_bind, wp_set]
    obtain ⟨live, represents⟩ := tracked
    refine addChildren_tracked request loraName queued _ ⟨live, represents.places, represents.known, represents.ids,
      fun other entry p held of => ?_⟩ (by simp)
    obtain ⟨parent, there, member⟩ := represents.children other entry p held of
    exact ⟨parent, List.getElem?_append_left (List.getElem?_eq_some_iff.mp there).1 ▸ there, member⟩

/-! ### Outputs -/

def standing (s : OutputProcessor L) (name : LoRAName) (id : RequestId) : Standing :=
  if id ∈ s.loraStates.running name then .running else .waiting

theorem Represents.standing {name : LoRAName} {place : Standing} (represents : Represents s live)
    (stands : live id = some (name, place)) : s.standing name id = place := by
  simp only [OutputProcessor.standing, represents.places.running, stands]
  cases place <;> simp

variable [Tokenizer] {output : TimedOutput L} {timestamp : Option ℚ} {iterationStats : Option IterationStats}

/-- Of a request with an adapter: with statistics the events of the output fit where it stands, and it
finishes only from running; without them it does not finish. -/
def InOrder (s : OutputProcessor L) (timestamp : Option ℚ) (iterationStats : Option IterationStats)
    (output : TimedOutput L) : Prop :=
  ∀ record name, s.requestStates.get? output.requestId = some record → record.loraName = some name →
    match iterationStats with
    | none => ¬record.state.Finishes output.toEngineCoreOutput
    | some _ => timestamp.isSome = true → record.hasStats = true →
      ∃ final, (s.standing name output.requestId).follow (output.events.getD []) = some final ∧
        (record.state.Finishes output.toEngineCoreOutput → final = .running)

/-- After the statistics of an output, a request that finishes with it is running. -/
theorem updateStatsFromOutput_tracked (represents : Represents s live)
    (found : s.requestStates.get? output.requestId = some record) (inOrder : InOrder s timestamp iterationStats output) :
    wp (updateStatsFromOutput record output timestamp iterationStats)
      (fun counted t => ∃ live', Represents t live' ∧ t.requestStates = s.requestStates ∧
        (counted.isSome → record.hasStats = true) ∧ (record.state.Finishes output.toEngineCoreOutput →
          ∀ name ∈ record.loraName, counted.isSome ∧ live' output.requestId = some (name, .running)))
      (fun e t => e ≠ .keyError ∧ Tracked t) s := by
  cases iterationStats with
  | none =>
    refine ⟨live, represents, rfl, nofun, fun finishes name adapter => ?_⟩
    exact absurd finishes (inOrder record name found adapter)
  | some iterationStats =>
    obtain ⟨loraStates, got, places, -⟩ := LoRARequestStates.getStats_places represents.places record.loraName
    have begun : Represents { s with loraStates } live := represents.frame rfl places rfl
    rw [updateStatsFromOutput, wp_bind, wp_of_ok (onLora_ok got), wp_bind]
    by_cases timed : timestamp.isSome = true
    · rw [assertThat, if_pos timed, wp_pure, wp_bind]
      by_cases stats : record.hasStats = true
      · rw [assertThat, if_pos stats, wp_pure, wp_map]
        cases adapter : record.loraName with
        | none =>
          obtain ⟨counted, done⟩ := LoRARequestStates.updateFromEvents_none output.requestId (output.events.getD [])
            iterationStats loraStates
          rw [wp_of_ok (onLora_ok (s := { s with loraStates }) done)]
          exact ⟨live, begun, rfl, fun _ => stats, fun _ name named => nomatch named⟩
        | some name =>
          obtain ⟨final, fits, running⟩ := inOrder record name found adapter timed stats
          have known := represents.adapter found
          rw [adapter] at known
          obtain ⟨⟨_, place⟩, stands, rfl⟩ := Option.map_eq_some_iff.mp known.symm
          rw [represents.standing stands] at fits
          obtain ⟨counted, moved, done, placed⟩ :=
            LoRARequestStates.updateFromEvents_places iterationStats places stands fits
          rw [wp_of_ok (onLora_ok (s := { s with loraStates }) done)]
          refine ⟨_, begun.move stands placed, rfl, fun _ => stats, fun finishes other same => ⟨rfl, ?_⟩⟩
          cases same
          rw [Function.update_self, running finishes]
      · rw [assertThat, if_neg stats, wp_throw]
        exact ⟨by decide, live, begun⟩
    · rw [assertThat, if_neg timed, wp_throw]
      exact ⟨by decide, live, begun⟩

theorem makeOutput_tracked (represents : Represents s live)
    (found : s.requestStates.get? output.requestId = some record) :
    wp (makeOutput record output)
      (fun made t => Represents t live ∧ (∃ record', t.requestStates.get? output.requestId = some record' ∧
        record'.parentReq = record.parentReq) ∧
        (record.state.Finishes output.toEngineCoreOutput ↔ made.finishReason.isSome = true))
      (fun e t => e ≠ .keyError ∧ Tracked t) s := by
  rw [makeOutput, wp_bind, wp_get]
  dsimp only
  generalize parented : (record.parentReq.bind fun parentReq => s.parents[parentReq]?) = parent
  cases processed : record.state.processOutput output.toEngineCoreOutput parent with
  | none => exact ⟨by decide, live, represents⟩
  | some made =>
    obtain ⟨named, children, finishes⟩ := RequestState.processOutput_ok processed
    have updated := represents.setRecord { record with state := made.state } found rfl rfl
      (named.trans (represents.ids _ _ found))
    dsimp only
    rw [wp_bind, setRecord, wp_modify]
    have held : ∃ record', (s.requestStates.insert output.requestId { record with state := made.state }).get?
        output.requestId = some record' ∧ record'.parentReq = record.parentReq :=
      ⟨_, Dict.get?_insert_self _ _ _, rfl⟩
    generalize s.requestStates.insert output.requestId { record with state := made.state } = requestStates at updated held
    cases mine : record.parentReq with
    | none => exact ⟨updated, mine ▸ held, finishes⟩
    | some parentReq =>
      cases after : made.parentReq with
      | none => exact ⟨updated, mine ▸ held, finishes⟩
      | some changed =>
        rw [wp_bind, OutputProcessor.onParent, wp_modify]
        refine ⟨updated.onParent fun before there child member => ?_, mine ▸ held, finishes⟩
        obtain ⟨old, same, kept⟩ := children changed after
        rw [mine] at parented
        change s.parents[parentReq]? = some before at there
        have given := (parented.trans same).symm.trans there
        cases given
        rw [kept]
        exact member

omit [Tokenizer] in
theorem updateStatsFromFinished_ok {counted : Option IterationStats} (places : Places s.loraStates live)
    (named : record.state.requestId = id) (adapter : record.loraName = (live id).map Prod.fst)
    (stats : counted.isSome → record.hasStats = true)
    (runs : ∀ name ∈ record.loraName, counted.isSome ∧ live id = some (name, .running)) :
    ∃ loraStates, updateStatsFromFinished record counted s = .ok () { s with loraStates } ∧
      Places loraStates (Function.update live id none) := by
  cases mine : record.loraName with
  | none =>
    rw [mine] at adapter
    have gone : live id = none := Option.map_eq_none_iff.mp adapter.symm
    refine ⟨s.loraStates, ?_, by rwa [← gone, Function.update_eq_self]⟩
    cases counted with
    | none => rfl
    | some _ => simp [updateStatsFromFinished, assertThat, stats, mine, LoRARequestStates.finishRequest, onLora, zoom]
  | some name =>
    obtain ⟨some, running⟩ := runs name mine
    obtain ⟨counted, rfl⟩ := Option.isSome_iff_exists.mp some
    obtain ⟨loraStates, finished, placed⟩ := LoRARequestStates.finishRequest_places places running
    refine ⟨loraStates, ?_, placed⟩
    rw [updateStatsFromFinished, assertThat, if_pos (stats some), pure_bind, named, mine]
    exact onLora_ok finished

theorem processOne_tracked {results : Results L} (tracked : Tracked s)
    (inOrder : InOrder s timestamp results.iterationStats output) :
    wp (processOne timestamp output results) (fun _ t => Tracked t) (fun e t => e ≠ .keyError ∧ Tracked t) s := by
  obtain ⟨live, represents⟩ := tracked
  rw [processOne, wp_bind, wp_get]
  cases found : s.requestStates.get? output.requestId with
  | none => exact ⟨live, represents⟩
  | some record =>
    dsimp only
    rw [wp_bind]
    refine (updateStatsFromOutput_tracked represents found inOrder).mono ?_ fun _ _ failed => failed
    rintro counted t ⟨live', now, requests, stats, finishing⟩
    rw [wp_bind]
    refine (makeOutput_tracked now (requests ▸ found)).mono ?_ fun _ _ failed => failed
    rintro made u ⟨after, ⟨record', held, parentReq⟩, finishes⟩
    -- what is handed over does not matter
    have handed : ∃ results' queues, handOver record { results with iterationStats := counted } made.requestOutput u =
        .ok results' { u with queues } := by
      cases made.requestOutput with
      | none => exact ⟨_, u.queues, rfl⟩
      | some requestOutput =>
        unfold handOver
        split
        · exact ⟨_, _, rfl⟩
        · exact ⟨_, u.queues, rfl⟩
    obtain ⟨results', queues, handed⟩ := handed
    rw [wp_bind, wp_of_ok handed]
    cases reason : made.finishReason with
    | none => exact ⟨live', after.frame rfl after.places rfl⟩
    | some finishReason =>
      have runs := finishing (finishes.mpr (by simp [reason]))
      have named := represents.ids _ _ found
      have adapter := now.adapter (requests ▸ found)
      obtain ⟨loraStates, left, places⟩ := updateStatsFromFinished_ok
        (s := { u with
          requestStates := u.requestStates.erase output.requestId
          parents := released u.parents output.requestId record.parentReq
          queues }) after.places named adapter stats runs
      have gone := (after.forget record.parentReq places).frame (t := { u with
        requestStates := u.requestStates.erase output.requestId
        loraStates
        parents := released u.parents output.requestId record.parentReq
        queues }) rfl places rfl
      have released := finishChildRequest_ok (t := { u with
        requestStates := u.requestStates.erase output.requestId
        queues }) after held rfl
      rw [parentReq] at released
      dsimp only
      rw [wp_bind, wp_modify, wp_bind, wp_of_ok released, wp_bind, wp_of_ok left, wp_ite]
      exact ⟨fun _ => ⟨_, gone⟩, fun _ => ⟨_, gone⟩⟩

def EachInOrder (timestamp : Option ℚ) : List (TimedOutput L) → Results L → OutputProcessor L → Prop
  | [], _, _ => True
  | output :: rest, results, s => InOrder s timestamp results.iterationStats output ∧
    ∀ results' t, processOne timestamp output results s = .ok results' t → EachInOrder timestamp rest results' t

theorem processEach_tracked {outputs : List (TimedOutput L)} {results : Results L} (tracked : Tracked s)
    (inOrder : EachInOrder timestamp outputs results s) :
    wp (processEach timestamp outputs results) (fun _ t => Tracked t) (fun e t => e ≠ .keyError ∧ Tracked t) s := by
  induction outputs generalizing s results with
  | nil => exact tracked
  | cons output rest ih =>
    rw [processEach, wp_bind]
    refine wp_intro (fun results' t call => ?_) fun e t call => ?_
    · exact ih ((processOne_tracked tracked inOrder.1).ok call) (inOrder.2 results' t call)
    · exact (processOne_tracked tracked inOrder.1).error call

/-! ### Runs -/

inductive Call (L : Type) where
  | add (request : EngineCoreRequest) (loraName : Option LoRAName) (queued : Bool)
  | abort (requestIds : List RequestId)
  | process (outputs : List (TimedOutput L)) (timestamp : Option ℚ) (iterationStats : Option IterationStats)

def Call.run : Call L → Method (OutputProcessor L) Unit
  | .add request loraName queued => addFromEngine request loraName queued
  | .abort requestIds => abortRequests requestIds
  | .process outputs timestamp iterationStats => do
    let _ ← processOutputs outputs timestamp iterationStats
    return ()

structure Event (L : Type) where
  before : OutputProcessor L
  call : Call L

/-- One call of a run, however it ends. -/
def Made (s : OutputProcessor L) (e : Event L) (t : OutputProcessor L) : Prop :=
  e.before = s ∧ t = after e.call.run s

def Event.InOrder (e : Event L) : Prop :=
  match e.call with
  | .process outputs timestamp iterationStats => EachInOrder timestamp outputs { iterationStats } e.before
  | _ => True

omit [Tokenizer] in
/-- A request is in the sets of its adapter exactly while its state exists, and never in both. -/
structure Consistent (s : OutputProcessor L) : Prop where
  listed : ∀ id name, (id ∈ s.loraStates.waiting name ∨ id ∈ s.loraStates.running name) ↔
    ∃ record, s.requestStates.get? id = some record ∧ record.loraName = some name
  apart : ∀ id name, ¬(id ∈ s.loraStates.waiting name ∧ id ∈ s.loraStates.running name)

omit [Tokenizer] in
theorem Tracked.consistent (tracked : Tracked s) : Consistent s := by
  obtain ⟨live, represents⟩ := tracked
  refine ⟨fun id name => ?_, fun id name both => ?_⟩
  · rw [represents.places.waiting, represents.places.running, ← Option.bind_eq_some_iff, represents.known,
      Option.map_eq_some_iff]
    constructor
    · rintro (stands | stands)
      · exact ⟨_, stands, rfl⟩
      · exact ⟨_, stands, rfl⟩
    · rintro ⟨⟨name, place⟩, stands, rfl⟩
      cases place with
      | waiting => exact Or.inl stands
      | running => exact Or.inr stands
  · rw [represents.places.waiting, represents.places.running] at both
    cases both.1.symm.trans both.2

theorem call_tracked {e : Event L} (tracked : Tracked e.before) (inOrder : e.InOrder) :
    wp e.call.run (fun _ t => Tracked t) (fun error t => error ≠ .keyError ∧ Tracked t) e.before := by
  obtain ⟨before, call⟩ := e
  cases call with
  | add request loraName queued => exact addFromEngine_tracked request loraName queued tracked
  | abort requestIds =>
    obtain ⟨t, done, kept⟩ := abortRequests_tracked requestIds tracked
    exact (wp_of_ok done).mpr kept
  | process outputs timestamp iterationStats =>
    show wp (do let _ ← processOutputs outputs timestamp iterationStats; return ()) _ _ before
    rw [wp_bind, processOutputs, wp_bind]
    exact (processEach_tracked tracked inOrder).mono (fun _ _ kept => kept) fun _ _ failed => failed

omit [Tokenizer] in
theorem init_tracked (logStats : Bool) : Tracked ({ logStats } : OutputProcessor L) := by
  have empty : ∀ id, ({ logStats } : OutputProcessor L).requestStates.get? id = none := Dict.get?_empty
  refine ⟨fun _ => none, ⟨fun name id => ?_, fun name id => ?_⟩, fun _ => rfl, fun id record found => ?_,
    fun id record parentReq found => ?_⟩
  · simp [LoRARequestStates.waiting]
  · simp [LoRARequestStates.running]
  · rw [empty] at found
    cases found
  · rw [empty] at found
    cases found

/-- In a run whose outputs are in order the sets follow the requests in every state, and no call raises a
`KeyError`. -/
theorem run_consistent {logStats : Bool} {history : List (Event L)}
    (run : Run Made ({ logStats } : OutputProcessor L) history s) (inOrder : ∀ e ∈ history, e.InOrder) :
    Consistent s ∧ ∀ e ∈ history, Consistent e.before ∧ ∀ t, e.call.run e.before ≠ .error .keyError t := by
  have all : Tracked s ∧ ∀ e ∈ history, Tracked e.before := by
    induction run with
    | start => exact ⟨init_tracked logStats, fun _ member => nomatch member⟩
    | @call history s t e run made ih =>
      obtain ⟨rfl, rfl⟩ := made
      obtain ⟨kept, before⟩ := ih fun e member => inOrder e (List.mem_cons_of_mem _ member)
      refine ⟨?_, fun e' member => ?_⟩
      · have ends := call_tracked kept (inOrder e List.mem_cons_self)
        unfold after
        cases call : e.call.run e.before with
        | ok a t => exact ends.ok call
        | error error t => exact (ends.error call).2
      · rcases List.mem_cons.mp member with rfl | earlier
        · exact kept
        · exact before e' earlier
  refine ⟨all.1.consistent, fun e member => ⟨(all.2 e member).consistent, fun t raised => ?_⟩⟩
  exact ((call_tracked (all.2 e member) (inOrder e member)).error raised).1 rfl

/-- The processor after the calls, latest first. -/
def replay (logStats : Bool) : List (Call L) → OutputProcessor L
  | [] => { logStats }
  | c :: earlier => after c.run (replay logStats earlier)

/-- The calls, with the states they are made on. -/
def recorded (logStats : Bool) : List (Call L) → List (Event L)
  | [] => []
  | c :: earlier => ⟨replay logStats earlier, c⟩ :: recorded logStats earlier

theorem replay_run (logStats : Bool) (calls : List (Call L)) :
    Run Made { logStats } (recorded logStats calls) (replay logStats calls) := by
  induction calls with
  | nil => exact .start
  | cons c earlier ih => exact .call ih ⟨rfl, rfl⟩

/-- Tokens without text. -/
abbrev silent : Tokenizer := ⟨fun _ => []⟩

abbrev adapted : EngineCoreRequest := { requestId := "r", promptTokenIds := [3], samplingParams := {} }

abbrev lastToken : TimedOutput Unit where
  requestId := "r"
  newTokenIds := [7]
  finishReason := some .length
  events := some [.queued, .scheduled]

/-- A request with an adapter, and the output that finishes it. -/
def oneToken (timestamp : Option ℚ) (iterationStats : Option IterationStats) : List (Call Unit) :=
  [.process [lastToken] timestamp iterationStats, .add adapted (some "a") false]

omit [Tokenizer] in
theorem run_consistent_oneToken : Consistent (@replay _ silent true (oneToken (some 0) (some {}))) := by
  let _ : Tokenizer := silent
  have hers : ((replay (L := Unit) true [.add adapted (some "a") false]).requestStates.get? "r").bind
      RequestRecord.loraName = some "a" := by decide +kernel
  have waits : (replay (L := Unit) true [.add adapted (some "a") false]).standing "a" "r" = .waiting := by
    decide +kernel
  have inOrder : InOrder (replay true [.add adapted (some "a") false]) (some 0) (some {}) lastToken := by
    intro record name found adapter
    have same : some "a" = some name := hers.symm.trans (Option.bind_eq_some_iff.mpr ⟨record, found, adapter⟩)
    cases same
    intro _ _
    refine ⟨.running, ?_, fun _ => rfl⟩
    rw [waits]
    rfl
  refine (run_consistent (replay_run true (oneToken (some 0) (some {}))) fun e member => ?_).1
  rcases List.mem_cons.mp member with rfl | member
  · exact ⟨inOrder, fun _ _ _ => trivial⟩
  · rw [List.mem_singleton.mp member]
    trivial

omit [Tokenizer] in
/-- Without statistics the request stays among those that wait for its adapter. -/
theorem oneToken_kept : ¬∀ (tokenizer : Tokenizer) (logStats : Bool) (history : List (Event Unit))
    (s : OutputProcessor Unit), Run (@Made Unit tokenizer) { logStats } history s →
      Consistent s ∧ ∀ e ∈ history, Consistent e.before ∧ ∀ t, e.call.run e.before ≠ .error .keyError t := by
  let _ : Tokenizer := silent
  intro claim
  have consistent := (claim silent false _ _ (replay_run false (oneToken none none))).1
  have waits : "r" ∈ (replay false (oneToken none none)).loraStates.waiting "a" := by decide +kernel
  obtain ⟨record, found, -⟩ := (consistent.listed "r" "a").mp (Or.inl waits)
  have gone : (replay false (oneToken none none)).requestStates.contains "r" = false := by decide +kernel
  rw [Dict.contains_iff.mpr ⟨record, found⟩] at gone
  cases gone

end OutputProcessor
end Vllm.Frontend
