import VllmProofs.Frontend.RequestState

/-!
`ParentRequest`, `vllm/v1/engine/parallel_sampling.py`, when only the final output is wanted: the
completions of the children are collected, and sent together.
-/

namespace Vllm.Frontend

variable {L : Type}

namespace ParentRequest

/-- The completions that wait for the others. -/
def collected (parent : ParentRequest L) : List (CompletionOutput L) :=
  (parent.outputAggregator.map RequestOutput.outputs).getD []

/-- What has been collected is for an output of the whole request, and of children that have finished. -/
structure Collects (parent : ParentRequest L) : Prop where
  output : ∀ o, parent.outputAggregator = some o → o.requestId = parent.requestId ∧ o.finished = true
  reasons : ∀ c ∈ parent.collected, c.finishReason.isSome = true

theorem Collects.of_none {parent : ParentRequest L} (none : parent.outputAggregator = none) : parent.Collects := by
  constructor <;> simp [collected, none]

/-- Every completion is there, with its reason to finish, in the order of the children. -/
structure AnsweredBy (parent : ParentRequest L) (o : RequestOutput L) : Prop where
  requestId : o.requestId = parent.requestId
  finished : o.finished = true
  complete : o.outputs.map CompletionOutput.index = List.range parent.n
  reasons : ∀ c ∈ o.outputs, c.finishReason.isSome = true

/-- Outputs of the engine core for children of the request, in the order in which they come, each with the
state its child is in by then. -/
def serveChildren [Tokenizer] (parent : ParentRequest L) :
    List (RequestState L × EngineCoreOutput L) → Option (List (Processed L) × ParentRequest L)
  | [] => some ([], parent)
  | (s, output) :: rest => do
    let made ← s.processOutput output (some parent)
    let served ← serveChildren (made.parentReq.getD parent) rest
    return (made :: served.1, served.2)

end ParentRequest

open ParentRequest

section
variable {parent after : ParentRequest L} {made : Processed L} {o : RequestOutput L} {s : RequestState L}

theorem newRequestOutput_fields (requestId : RequestId) (finished : Bool) (s : RequestState L) :
    (s.newRequestOutput requestId finished).1.requestId = requestId ∧
      (s.newRequestOutput requestId finished).1.finished = finished ∧
      (s.newRequestOutput requestId finished).1.outputs = [] ∧
      (s.newRequestOutput requestId finished).2.requestIndex = s.requestIndex := by
  unfold RequestState.newRequestOutput
  dsimp only
  split <;> exact ⟨rfl, rfl, rfl, rfl⟩

/-- The completion of a child joins the others; it waits with them, or all are sent. -/
theorem makeParentOutput_eq (completion : CompletionOutput L) (s : RequestState L) (collects : parent.Collects) :
    ∃ o t, o.requestId = parent.requestId ∧ o.finished = true ∧ o.outputs = parent.collected ++ [completion] ∧
      t.requestIndex = s.requestIndex ∧ s.makeParentOutput true true completion parent =
        if o.outputs.length ≠ parent.n then (none, { parent with outputAggregator := some o }, t)
        else (some { o with outputs := o.outputs.insertionSort fun x y => x.index ≤ y.index },
          { parent with outputAggregator := none }, t) := by
  unfold RequestState.makeParentOutput
  cases aggregated : parent.outputAggregator with
  | none =>
    have collected : parent.collected = [] := by simp [collected, aggregated]
    obtain ⟨requestId, finished, outputs, index⟩ := newRequestOutput_fields parent.requestId true s
    refine ⟨{ (s.newRequestOutput parent.requestId true).1 with outputs := [completion] }, _, requestId, finished,
      by rw [collected]; rfl, index, by simp [outputs]⟩
  | some o =>
    have collected : parent.collected = o.outputs := by simp [collected, aggregated]
    obtain ⟨requestId, finished⟩ := collects.output o aggregated
    exact ⟨{ o with outputs := o.outputs ++ [completion] }, s, requestId, finished, by rw [collected], rfl, by simp⟩

structure Adds (parent : ParentRequest L) (made : Processed L) (o : RequestOutput L) : Prop where
  finishes : made.finishReason.isSome = true
  requestId : o.requestId = parent.requestId
  finished : o.finished = true
  outputs : ∃ c : CompletionOutput L, o.outputs = parent.collected ++ [c] ∧
    c.index = made.state.requestIndex ∧ c.finishReason = made.finishReason
  waits : o.outputs.length ≠ parent.n →
    made.requestOutput = none ∧ made.parentReq = some { parent with outputAggregator := some o }
  sends : o.outputs.length = parent.n →
    made.requestOutput = some { o with outputs := o.outputs.insertionSort fun x y => x.index ≤ y.index } ∧
      made.parentReq = some { parent with outputAggregator := none }

theorem Adds.reasons (adds : Adds parent made o) (collects : parent.Collects) :
    ∀ c ∈ o.outputs, c.finishReason.isSome = true := by
  intro c member
  obtain ⟨last, outputs, -, reason⟩ := adds.outputs
  rw [outputs] at member
  rcases List.mem_append.mp member with old | new
  · exact collects.reasons c old
  · rw [List.mem_singleton.mp new, reason]
    exact adds.finishes

theorem Adds.collects (adds : Adds parent made o) (collects : parent.Collects) :
    ({ parent with outputAggregator := some o } : ParentRequest L).Collects := by
  refine ⟨?_, adds.reasons collects⟩
  rintro _ ⟨⟩
  exact ⟨adds.requestId, adds.finished⟩

/-- An output for a child leaves the parent alone, unless it finishes the child. -/
theorem processOutput_child [Tokenizer] {output : EngineCoreOutput L} (collects : parent.Collects)
    (finalOnly : s.outputKind = .finalOnly) (processed : s.processOutput output (some parent) = some made) :
    made.finishReason = none ∧ made.requestOutput = none ∧ made.parentReq = some parent ∨ ∃ o, Adds parent made o := by
  unfold RequestState.processOutput at processed
  obtain ⟨logprobsProcessor, -, processed⟩ := Option.bind_eq_some_iff.mp processed
  cases processed
  generalize RequestState.reasonsFor _ output = reasons
  generalize started : ({ s with isPrefilling := _, detokenizer := _, logprobsProcessor } : RequestState L) = begun
  have finalOnly : begun.outputKind = .finalOnly := started ▸ finalOnly
  obtain ⟨finishReason, stopReason⟩ := reasons
  cases finishReason with
  | none => exact Or.inl (by simp [RequestState.makeRequestOutput, finalOnly])
  | some reason =>
    obtain ⟨o, t, requestId, finished, outputs, index, equal⟩ := makeParentOutput_eq
      (begun.newCompletionOutput output.newTokenIds (some reason) stopReason).1
      (begun.newCompletionOutput output.newTokenIds (some reason) stopReason).2 collects
    have made : begun.makeRequestOutput output.newTokenIds (some reason) stopReason (some parent) =
        if o.outputs.length ≠ parent.n then (none, some { parent with outputAggregator := some o }, t)
        else (some { o with outputs := o.outputs.insertionSort fun x y => x.index ≤ y.index },
          some { parent with outputAggregator := none }, t) := by
      unfold RequestState.makeRequestOutput
      simp only [finalOnly, Option.isSome_some, not_true_eq_false, false_and, if_false, decide_true, equal]
      split <;> rfl
    dsimp only
    rw [made]
    refine Or.inr ⟨o, ⟨rfl, requestId, finished, ⟨_, outputs, ?_, rfl⟩, ?_, ?_⟩⟩
    · split <;> exact index.symm
    · intro others
      simp [others]
    · intro all
      simp [all]

/-- As many completions as there are children are those of all children. -/
theorem sorted_indices {outputs : List (CompletionOutput L)} {n : ℕ}
    (perm : (outputs.map CompletionOutput.index).Perm (List.range n)) :
    (outputs.insertionSort fun x y => x.index ≤ y.index).map CompletionOutput.index = List.range n := by
  rw [List.map_insertionSort _ (· ≤ ·) _ _ fun _ _ _ _ => Iff.rfl]
  exact ((List.perm_insertionSort _ _).trans perm).eq_of_sortedLE List.sortedLE_insertionSort
    (List.sortedLT_range _).sortedLE

variable [Tokenizer] {calls : List (RequestState L × EngineCoreOutput L)} {mades earlier later : List (Processed L)}
  {last : Processed L}

theorem serveChildren_cons {call : RequestState L × EngineCoreOutput L}
    (served : serveChildren parent (call :: calls) = some (mades, after)) :
    ∃ made others, call.1.processOutput call.2 (some parent) = some made ∧
      serveChildren (made.parentReq.getD parent) calls = some (others, after) ∧ mades = made :: others := by
  obtain ⟨made, processed, served⟩ := Option.bind_eq_some_iff.mp served
  obtain ⟨⟨others, after'⟩, rest, done⟩ := Option.bind_eq_some_iff.mp served
  cases done
  exact ⟨made, others, processed, rest, rfl⟩

/-- Nothing is sent while no child finishes. -/
theorem serveChildren_idle (collects : parent.Collects) (finalOnly : ∀ call ∈ calls, call.1.outputKind = .finalOnly)
    (served : serveChildren parent calls = some (mades, after)) (going : ∀ made ∈ mades, made.finishReason = none) :
    after = parent ∧ ∀ made ∈ mades, made.requestOutput = none := by
  induction calls generalizing mades with
  | nil =>
    cases served
    exact ⟨rfl, by simp⟩
  | cons call rest ih =>
    obtain ⟨made, others, processed, left, rfl⟩ := serveChildren_cons served
    obtain ⟨here, after⟩ := List.forall_mem_cons.mp going
    rcases processOutput_child collects (finalOnly call List.mem_cons_self) processed with
      ⟨-, silent, parentReq⟩ | ⟨o, adds⟩
    · rw [parentReq] at left
      obtain ⟨same, none⟩ := ih (fun call member => finalOnly call (List.mem_cons_of_mem _ member)) left after
      exact ⟨same, List.forall_mem_cons.mpr ⟨silent, none⟩⟩
    · have finishes := adds.finishes
      rw [here] at finishes
      cases finishes

def finishedIndices (mades : List (Processed L)) : List ℕ :=
  (mades.filter fun made => made.finishReason.isSome).map fun made => made.state.requestIndex

/-- In whatever order the children finish, nothing is sent before the last one does; then one output is, with
the completions of all children. -/
theorem serveChildren_answers (collects : parent.Collects) (finalOnly : ∀ call ∈ calls, call.1.outputKind = .finalOnly)
    (served : serveChildren parent calls = some (earlier ++ last :: later, after))
    (ends : last.finishReason.isSome = true) (ended : ∀ made ∈ later, made.finishReason = none)
    (once : (parent.collected.map CompletionOutput.index ++ finishedIndices (earlier ++ [last])).Perm (List.range parent.n)) :
    (∀ made ∈ earlier ++ later, made.requestOutput = none) ∧ after = { parent with outputAggregator := none } ∧
      ∃ o, last.requestOutput = some o ∧ parent.AnsweredBy o := by
  induction earlier generalizing parent calls with
  | nil =>
    cases calls with
    | nil => cases served
    | cons call rest =>
      obtain ⟨made, others, processed, left, same⟩ := serveChildren_cons served
      cases same
      have here := finalOnly call List.mem_cons_self
      rcases processOutput_child collects here processed with ⟨goes, -, -⟩ | ⟨o, adds⟩
      · rw [goes] at ends
        cases ends
      · obtain ⟨c, outputs, index, -⟩ := adds.outputs
        have indices : (o.outputs.map CompletionOutput.index).Perm (List.range parent.n) := by
          simpa [outputs, index, finishedIndices, ends] using once
        have all : o.outputs.length = parent.n := by simpa using indices.length_eq
        obtain ⟨sent, parentReq⟩ := adds.sends all
        rw [parentReq] at left
        obtain ⟨kept, silent⟩ := serveChildren_idle (.of_none rfl)
          (fun call member => finalOnly call (List.mem_cons_of_mem _ member)) left ended
        refine ⟨silent, kept, _, sent, adds.requestId, adds.finished, sorted_indices indices, fun c' member => ?_⟩
        exact adds.reasons collects c' ((List.perm_insertionSort _ _).mem_iff.mp member)
  | cons made earlier ih =>
    cases calls with
    | nil => cases served
    | cons call rest =>
      obtain ⟨first, others, processed, left, same⟩ := serveChildren_cons served
      cases same
      have rest := fun call member => finalOnly call (List.mem_cons_of_mem _ member)
      rcases processOutput_child collects (finalOnly call List.mem_cons_self) processed with
        ⟨goes, silent, parentReq⟩ | ⟨o, adds⟩
      · rw [parentReq] at left
        obtain ⟨none, answered⟩ := ih collects rest left (by simpa [finishedIndices, goes] using once)
        exact ⟨List.forall_mem_cons.mpr ⟨silent, none⟩, answered⟩
      · obtain ⟨c, outputs, index, -⟩ := adds.outputs
        have more : o.outputs.length ≠ parent.n := by
          have length := once.length_eq
          simp [finishedIndices, ends, adds.finishes] at length
          simp [outputs]
          omega
        obtain ⟨silent, parentReq⟩ := adds.waits more
        rw [parentReq] at left
        have once' : ((o.outputs.map CompletionOutput.index) ++ finishedIndices (earlier ++ [last])).Perm
            (List.range parent.n) := by
          simpa [outputs, index, finishedIndices, adds.finishes] using once
        obtain ⟨none, kept, o', sent, answered⟩ := ih (adds.collects collects) rest left once'
        exact ⟨List.forall_mem_cons.mpr ⟨silent, none⟩, kept, o', sent,
          answered.requestId, answered.finished, answered.complete, answered.reasons⟩

end

section
local instance silent : Tokenizer := ⟨fun _ => []⟩

/-- A token for each of two children; the second one finishes first. -/
def reversedCalls : List (RequestState Unit × EngineCoreOutput Unit) :=
  [(0, none), (1, some .length), (0, some .stop)].map fun call =>
    (.fromNewRequest {
        requestId := childRequestId call.1 "r"
        promptTokenIds := [1]
        samplingParams := { outputKind := .finalOnly } } call.1,
      { requestId := childRequestId call.1 "r", newTokenIds := [5], finishReason := call.2 })

theorem serveChildren_answers_reversed : ∃ a b c after, ∃ o : RequestOutput Unit,
    serveChildren { requestId := "r", n := 2 } reversedCalls = some ([a, b] ++ [c], after) ∧
      c.requestOutput = some o ∧ o.outputs.map CompletionOutput.index = [0, 1] := by
  have ran : (match serveChildren { requestId := "r", n := 2 } reversedCalls with
      | some (mades, _) => decide (mades.map (fun made => (made.finishReason, made.state.requestIndex)) =
          [(none, 0), (some .length, 1), (some .stop, 0)])
      | none => false) = true := by decide +kernel
  cases served : serveChildren { requestId := "r", n := 2 } reversedCalls with
  | none =>
    rw [served] at ran
    cases ran
  | some made =>
    obtain ⟨mades, after⟩ := made
    rw [served] at ran
    obtain ⟨a, _, rfl, first, shown⟩ := List.map_eq_cons_iff.mp (of_decide_eq_true ran)
    obtain ⟨b, _, rfl, second, shown⟩ := List.map_eq_cons_iff.mp shown
    obtain ⟨c, _, rfl, third, shown⟩ := List.map_eq_cons_iff.mp shown
    obtain rfl := List.map_eq_nil_iff.mp shown
    rw [Prod.mk.injEq] at first second third
    have finalOnly : ∀ call ∈ reversedCalls, call.1.outputKind = .finalOnly := by
      simp [reversedCalls, RequestState.fromNewRequest]
    have once : (finishedIndices ([a, b] ++ [c])).Perm (List.range 2) := by
      simp [finishedIndices, first, second, third, List.range_succ, List.Perm.swap]
    have parts : serveChildren { requestId := "r", n := 2 } reversedCalls = some ([a, b] ++ c :: [], after) := served
    obtain ⟨-, -, o, sent, answered⟩ :=
      serveChildren_answers (.of_none rfl) finalOnly parts (by rw [third.1]; rfl) (List.forall_mem_nil _) once
    exact ⟨a, b, c, after, o, rfl, sent, answered.complete⟩

end

end Vllm.Frontend
