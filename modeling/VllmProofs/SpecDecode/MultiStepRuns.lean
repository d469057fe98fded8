import VllmProofs.SpecDecode.MultiStepRows

/-!
All passes of `sampler_output`. Every copy stays one token behind the group it stands in front of, whose tokens are the
ones it had and those sampled for it.
-/

namespace Vllm.SpecDecode.MultiStep
open Doubled Exec

/-- The tokens of the one sequence of a group. -/
structure History where
  requestId : ℕ
  seqId : SeqId
  promptTokenIds : List TokenId
  outputTokenIds : List TokenId
  deriving DecidableEq

namespace History

def withoutLast (x : History) : History := { x with outputTokenIds := x.outputTokenIds.dropLast }

def append (x : History) (tokenId : TokenId) : History := { x with outputTokenIds := x.outputTokenIds ++ [tokenId] }

/-- What a row of the request for the model shows. -/
def Shown (x : History) (group : GroupView) : Prop :=
  group.requestId = x.requestId ∧ ∃ seq, group.seqs = [(x.seqId, seq)] ∧
    seq.promptTokenIds = x.promptTokenIds ∧ seq.outputTokenIds = x.outputTokenIds ∧
    seq.cachedAllTokenIds = x.promptTokenIds ++ x.outputTokenIds

end History

def SingleGroup.history (base : Heap) (g : SingleGroup) : History where
  requestId := g.requestId
  seqId := g.seqId
  promptTokenIds := (base.obj g.ref).promptTokenIds
  outputTokenIds := base.outputTokenIds g.ref

def appendSampled (xs : List History) (output : SamplerOutput) : List History :=
  List.zipWith History.append xs (output.outputs.map (·.token))

/-- No token of the first histories is missing in the second ones. -/
def Within (xs ys : List History) : Prop := ∀ x ∈ xs, ∃ y ∈ ys, x.outputTokenIds ⊆ y.outputTokenIds

/-- The histories, and in front of those with a bonus token the same without the last token. -/
def withCopies (bonus : Finset SeqId) (xs : List History) : List (Option History × History) :=
  xs.map fun x => (if x.seqId ∈ bonus then some x.withoutLast else none, x)

structure SamplesEach (given : List GroupView) (output : SamplerOutput) : Prop where
  outputs : List.Forall₂ Samples given output.outputs
  sampledTokenProbs : ∀ rows ∈ output.sampledTokenProbs, rows.length = given.length
  logprobs : ∀ rows ∈ output.logprobs, rows.length = given.length
  sampledTokenIds : ∀ rows ∈ output.sampledTokenIds, rows.length = given.length

structure Filtered (fronts : List Bool) (output kept : SamplerOutput) : Prop where
  outputs : Keeps fronts output.outputs kept.outputs
  sampledTokenProbs : Option.Rel (Keeps fronts) output.sampledTokenProbs kept.sampledTokenProbs
  logprobs : Option.Rel (Keeps fronts) output.logprobs kept.logprobs
  sampledTokenIds : Option.Rel (Keeps fronts) output.sampledTokenIds kept.sampledTokenIds

variable {base : Heap} {bonus : Finset SeqId} {xs : List History} {x : History} {row : Row} {ref : SeqDataRef}

theorem within_append {xs : List History} {tokenIds : List TokenId} (size : xs.length = tokenIds.length) :
    Within xs (List.zipWith History.append xs tokenIds) := by
  intro x member
  obtain ⟨i, inside, rfl⟩ := List.getElem_of_mem member
  have there : i < (List.zipWith History.append xs tokenIds).length := by
    rw [List.length_zipWith, ← size, Nat.min_self]
    exact inside
  refine ⟨_, List.getElem_mem there, ?_⟩
  rw [List.getElem_zipWith]
  exact List.subset_append_left _ _

/-! ### A row and its history -/

structure Row.Holds (row : Row) (x : History) : Prop where
  requestId : row.requestId = x.requestId
  seqId : row.seqId = x.seqId
  promptTokenIds : row.cell.promptTokenIds = x.promptTokenIds
  outputTokenIds : row.cell.outputTokenIds = x.outputTokenIds
  cachedAllTokenIds : row.cell.cachedAllTokenIds = x.promptTokenIds ++ x.outputTokenIds
  counted : row.Counted

theorem Row.Holds.shown (holds : row.Holds x) : x.Shown row.view :=
  ⟨holds.requestId, row.cell.view, by rw [← holds.seqId]; rfl, holds.promptTokenIds, holds.outputTokenIds,
    holds.cachedAllTokenIds⟩

theorem Row.Holds.append (holds : row.Holds x) (tokenId : TokenId) (logprob : ℚ) :
    (row.append tokenId logprob).Holds (x.append tokenId) where
  requestId := holds.requestId
  seqId := holds.seqId
  promptTokenIds := holds.promptTokenIds
  outputTokenIds := congrArg (· ++ [tokenId]) holds.outputTokenIds
  cachedAllTokenIds := by
    simp [Row.append, Cell.advance, Cell.append, holds.cachedAllTokenIds, History.append]
  counted := by
    have counted : row.cell.numComputedTokens ≤ row.cell.outputTokenIds.length + row.cell.promptTokenIds.length :=
      holds.counted
    unfold Row.Counted Row.append Cell.advance Cell.append Cell.len
    simp
    omega

structure Lags (bonus : Finset SeqId) (x : History) (pair : Option Row × Row) : Prop where
  row : pair.2.Holds x
  present : pair.1.isSome = decide (x.seqId ∈ bonus)
  front : ∀ copy ∈ pair.1, copy.Holds x.withoutLast
  outputs : ∀ copy ∈ pair.1, x.outputTokenIds ≠ []

theorem Lags.shown {pair : Option Row × Row} (lags : Lags bonus x pair) :
    List.Forall₂ History.Shown (flat (withCopies bonus [x])) ((flat [pair]).map Row.view) := by
  obtain ⟨front, row⟩ := pair
  have present := lags.present
  cases front with
  | none =>
    have plain : x.seqId ∉ bonus := by simpa using present.symm
    simpa [withCopies, plain] using lags.row.shown
  | some copy =>
    have marked : x.seqId ∈ bonus := by simpa using present.symm
    simpa [withCopies, marked] using ⟨(lags.front copy rfl).shown, lags.row.shown⟩

variable {pairs : List (Option Row × Row)}

theorem shown_of_lags (lags : List.Forall₂ (Lags bonus) xs pairs) :
    List.Forall₂ History.Shown (flat (withCopies bonus xs)) ((flat pairs).map Row.view) := by
  induction lags with
  | nil => exact .nil
  | @cons x pair xs pairs here _ ih =>
    have both := List.rel_append here.shown ih
    have left : flat (withCopies bonus (x :: xs)) = flat (withCopies bonus [x]) ++ flat (withCopies bonus xs) := by
      rw [← flat_append]
      rfl
    have right : (flat (pair :: pairs)).map Row.view = (flat [pair]).map Row.view ++ (flat pairs).map Row.view := by
      rw [← List.map_append, ← flat_append, List.singleton_append]
    rw [left, right]
    exact both

theorem Row.Holds.lastToken (holds : row.Holds x) (nonempty : x.outputTokenIds ≠ []) :
    lastToken row = x.outputTokenIds.getLast nonempty := by
  unfold MultiStep.lastToken
  rw [holds.outputTokenIds, List.getLast?_eq_getLast_of_ne_nil nonempty]
  rfl

theorem Lags.step {pair : Option (Row × GroupOutput) × (Row × GroupOutput)}
    (lags : Lags bonus x (mapPair Prod.fst pair)) :
    Lags bonus (x.append pair.2.2.token) (mapPair Write.result (writes pair)) := by
  obtain ⟨front, row, out⟩ := pair
  have held : row.Holds x := lags.row
  refine ⟨held.append _ _, Eq.trans ?_ lags.present, ?_, ?_⟩
  · simp [mapPair, writes]
  · cases front with
    | none => exact fun copy absent => by simp [mapPair, writes] at absent
    | some lead =>
      intro copy found
      have shape : lead.1.append (lastToken row) lead.2.logprob = copy := by
        simpa [mapPair, writes, Write.result] using found
      have nonempty : x.outputTokenIds ≠ [] := lags.outputs _ rfl
      have last := held.lastToken nonempty
      have grown := (lags.front _ rfl).append (lastToken row) lead.2.logprob
      have same : x.withoutLast.append (lastToken row) = (x.append out.token).withoutLast := by
        simp [History.append, History.withoutLast, last, List.dropLast_append_getLast]
      rw [same] at grown
      rw [← shape]
      exact grown
  · intro copy _
    simp [History.append]

theorem SingleGroup.lags_expanded {g : SingleGroup} (ready : g.Ready base bonus) :
    Lags bonus (g.history base) (g.expanded base bonus) where
  row := by
    refine ⟨rfl, rfl, rfl, rfl, rfl, ?_⟩
    exact ready.counted
  present := by
    unfold SingleGroup.expanded
    by_cases member : g.seqId ∈ bonus <;> simp [member, SingleGroup.history]
  front := by
    intro copy found
    unfold SingleGroup.expanded at found
    by_cases member : g.seqId ∈ bonus
    · have same : g.copy base = copy := by simpa [member] using found
      rw [← same]
      refine ⟨rfl, rfl, rfl, rfl, rfl, ?_⟩
      have counted := ready.counted
      unfold Row.Counted SingleGroup.copy Cell.advance Cell.len Heap.copied
      dsimp only
      rw [List.length_dropLast]
      omega
    · simp [member] at found
  outputs := by
    intro copy found
    unfold SingleGroup.expanded at found
    by_cases member : g.seqId ∈ bonus
    · exact ready.outputs member
    · simp [member] at found

/-! ### One pass -/

theorem map_notPrompt (ref : SeqDataRef) (ws : List Write) :
    (groupsFrom ref (ws.map Write.row)).map (fun group => { group with isPrompt := false }) =
      groupsFrom ref (ws.map Write.result) := by
  induction ws generalizing ref with
  | nil => rfl
  | cons w ws ih =>
    rw [List.map_cons, List.map_cons, groupsFrom, groupsFrom, List.map_cons, ih]
    rfl

variable {outputs : List GroupOutput}

theorem mapIdx_notPrompt {groups : List SequenceGroupMetadata}
    (size : groups.length = outputs.length) :
    groups.mapIdx (fun i group => if i < outputs.length then { group with isPrompt := false } else group) =
      groups.map fun group => { group with isPrompt := false } := by
  rw [← size]
  refine List.ext_getElem (by simp) fun i inside _ => ?_
  have inside : i < groups.length := by simpa using inside
  simp [inside]

theorem exists_sampled (lags : List.Forall₂ (Lags bonus) xs pairs) (samples : List.Forall₂ Samples ((flat pairs).map Row.view) outputs) :
    ∃ zipped : List (Option (Row × GroupOutput) × (Row × GroupOutput)),
      zipped.map (mapPair Prod.fst) = pairs ∧ (flat zipped).map Prod.snd = outputs ∧
      (∀ z ∈ zipped, Fits z) ∧ List.Forall₂ (fun x z => Lags bonus x (mapPair Prod.fst z)) xs zipped := by
  have size : outputs.length = (flat pairs).length := by
    rw [← samples.length_eq, List.length_map]
  obtain ⟨zipped, rfl, rfl⟩ := exists_zip pairs size
  rw [List.forall₂_map_right_iff] at lags
  rw [← map_flat, List.map_map, List.forall₂_map_left_iff, List.forall₂_map_right_iff, List.forall₂_same] at samples
  refine ⟨zipped, rfl, rfl, ?_, lags⟩
  intro z member
  obtain ⟨i, inside, rfl⟩ := List.getElem_of_mem member
  have held := lags.get (lags.length_eq ▸ inside) inside
  have own {y : Row × GroupOutput} (there : y ∈ zipped[i].1 ∨ y = zipped[i].2) : Samples y.1.view y.2 :=
    samples y (mem_flat.mpr ⟨_, member, there⟩)
  have front {lead : Row × GroupOutput} (found : lead ∈ zipped[i].1) : lead.1 ∈ (mapPair Prod.fst zipped[i]).1 := by
    unfold mapPair
    rw [Option.mem_def.mp found]
    rfl
  exact {
    counted := held.row.counted
    samples := own (.inr rfl)
    frontCounted := fun lead found => (held.front _ (front found)).counted
    frontSamples := fun lead found => own (.inl found)
    outputs := fun lead found => by
      have nonempty := held.outputs _ (front found)
      rwa [← held.row.outputTokenIds] at nonempty }

variable {zipped : List (Option (Row × GroupOutput) × (Row × GroupOutput))}

theorem step_lags (lags : List.Forall₂ (fun x z => Lags bonus x (mapPair Prod.fst z)) xs zipped) :
    List.Forall₂ (Lags bonus) (List.zipWith History.append xs (zipped.map (·.2.2.token)))
      (zipped.map fun z => mapPair Write.result (writes z)) := by
  induction lags with
  | nil => exact .nil
  | cons here _ ih => exact .cons here.step ih

theorem news_tokens
    (lags : List.Forall₂ (fun x z => Lags bonus x (mapPair Prod.fst z)) xs zipped) {new : ℕ × TokenId}
    (member : new ∈ (flat (zipped.map writes)).map Write.news) :
    ∃ x ∈ List.zipWith History.append xs (zipped.map (·.2.2.token)), new.2 ∈ x.outputTokenIds := by
  induction lags with
  | nil => cases member
  | @cons x z xs zipped here _ ih =>
    rw [List.map_cons, flat_cons, List.map_append, List.mem_append, List.map_cons, List.mem_cons] at member
    obtain inFront | rfl | later := member
    · obtain ⟨front, row, out⟩ := z
      cases front with
      | none => cases inFront
      | some lead =>
        have same : new = Write.news ⟨lead.1, lastToken row, lead.2.logprob⟩ := by
          simpa [writes] using inFront
        have nonempty : x.outputTokenIds ≠ [] := here.outputs _ rfl
        have last := here.row.lastToken nonempty
        refine ⟨_, List.mem_cons_self, ?_⟩
        rw [same, Write.news, show lastToken row = _ from last]
        exact List.mem_append_left _ (List.getLast_mem nonempty)
    · exact ⟨_, List.mem_cons_self, List.mem_append_right _ (List.mem_singleton_self _)⟩
    · obtain ⟨y, found, token⟩ := ih later
      exact ⟨y, List.mem_cons_of_mem _ found, token⟩

theorem isSome_of_lags (lags : List.Forall₂ (Lags bonus) xs pairs) :
    pairs.map (·.1.isSome) = xs.map fun x => decide (x.seqId ∈ bonus) := by
  induction lags with
  | nil => rfl
  | cons here _ ih => rw [List.map_cons, List.map_cons, here.present, ih]

theorem readRows_keeps {α : Type} (nonempty : pairs ≠ [])
    {tensor : Option (List α)} (size : ∀ rows ∈ tensor, rows.length = (flat pairs).length) :
    ∃ kept, tensor.mapM (readRows · (places 0 pairs)) = some kept ∧
      Option.Rel (Keeps (pairs.map (·.1.isSome))) tensor kept := by
  cases tensor with
  | none => exact ⟨none, rfl, .none⟩
  | some rows =>
    obtain ⟨kept, read, keeps⟩ := gather_keeps pairs (size rows rfl)
    have given : places 0 pairs ≠ [] := by
      cases pairs with
      | nil => exact absurd rfl nonempty
      | cons pair pairs => exact List.cons_ne_nil _ _
    refine ⟨some kept, ?_, .some keeps⟩
    simp [readRows, given, read]

theorem filterModelOutput_keeps (nonempty : pairs ≠ []) (rows : zipped.map (mapPair Prod.fst) = pairs)
    {output : SamplerOutput} (outputs : (flat zipped).map Prod.snd = output.outputs)
    (each : SamplesEach ((flat pairs).map Row.view) output) :
    ∃ kept, filterModelOutput (places 0 pairs) output = some kept ∧ kept.outputs = zipped.map (·.2.2) ∧
      Filtered (pairs.map (·.1.isSome)) output kept := by
  have shape : (zipped.map (mapPair Prod.snd)).map (·.1.isSome) = pairs.map (·.1.isSome) := by
    rw [← rows, List.map_map, List.map_map]
    exact List.map_congr_left fun z _ => by simp [mapPair]
  have all : output.outputs = flat (zipped.map (mapPair Prod.snd)) := by rw [← outputs, map_flat]
  have read := gather_places [] (zipped.map (mapPair Prod.snd))
  rw [List.nil_append, ← all, List.length_nil, places_congr shape, List.map_map] at read
  have some_outputs : output.outputs.length > 0 := by
    rw [all]
    cases zipped with
    | nil => exact absurd rows.symm nonempty
    | cons z zipped => simp
  have size : ((flat pairs).map Row.view).length = (flat pairs).length := List.length_map _
  obtain ⟨probs, readProbs, keepsProbs⟩ := readRows_keeps nonempty fun rows found =>
    (each.sampledTokenProbs rows found).trans size
  obtain ⟨logprobs, readLogprobs, keepsLogprobs⟩ := readRows_keeps nonempty fun rows found =>
    (each.logprobs rows found).trans size
  obtain ⟨ids, readIds, keepsIds⟩ := readRows_keeps nonempty fun rows found =>
    (each.sampledTokenIds rows found).trans size
  refine ⟨⟨zipped.map (·.2.2), probs, logprobs, ids⟩, ?_, rfl, ?_, keepsProbs, keepsLogprobs, keepsIds⟩
  · unfold filterModelOutput
    rw [if_pos some_outputs, read, readProbs, readLogprobs, readIds]
    rfl
  · exact ⟨_, all, by rw [List.map_map]; rfl, shape⟩

/-- What a pass leaves. -/
theorem pass_lags (nonempty : pairs ≠ [])
    (lags : List.Forall₂ (Lags bonus) xs pairs) {output : SamplerOutput}
    (each : SamplesEach ((flat pairs).map Row.view) output) (size : base.seqData.length = ref) :
    ∃ kept later news,
      filterModelOutput (places 0 pairs) output = some kept ∧
      Filtered (xs.map fun x => decide (x.seqId ∈ bonus)) output kept ∧
      appendNewTokens output.outputs (groupsFrom ref (flat pairs)) (places 0 pairs) (heapOf base (flat pairs)) =
        .ok (groupsFrom ref (flat later)) (heapOf (base.appendAll news) (flat later)) ∧
      List.Forall₂ (Lags bonus) (appendSampled xs kept) later ∧
      later.map (·.1.isSome) = pairs.map (·.1.isSome) ∧ Within xs (appendSampled xs kept) ∧
      (∀ new ∈ news, ∃ x ∈ appendSampled xs kept, new.2 ∈ x.outputTokenIds) ∧
      ∀ pair ∈ pairs, ∃ tokenId, (pair.2.cell.newAppendedTokens, tokenId) ∈ news := by
  obtain ⟨zipped, rows, outputs, fit, held⟩ := exists_sampled lags each.outputs
  obtain ⟨kept, filtered, sampled, keeps⟩ := filterModelOutput_keeps nonempty rows outputs each
  have advanced : appendSampled xs kept = List.zipWith History.append xs (zipped.map (·.2.2.token)) := by
    unfold appendSampled
    rw [sampled, List.map_map]
    rfl
  have stepped := step_lags held
  have all : (flat zipped).map Prod.fst = flat pairs := by rw [map_flat, rows]
  have written : (flat (zipped.map writes)).map Write.row = flat pairs := by
    rw [← rows, map_flat, List.map_map]
    congr 1
    exact List.map_congr_left fun z _ => by cases front : z.1 <;> simp [mapPair, writes, front]
  have result : (flat (zipped.map writes)).map Write.result =
      flat (zipped.map fun z => mapPair Write.result (writes z)) := by
    rw [map_flat, List.map_map]
    rfl
  have appended := @appendFrom_heapOf base ref (groupsFrom ref (flat pairs)) (places 0 pairs) 0 _ fit size [] [] rfl
    (by rw [List.drop_zero, ← rows, places_map]; rfl) (by rw [List.nil_append, all])
  rw [List.nil_append, List.nil_append, List.length_nil, Nat.add_zero, all, outputs, result] at appended
  have lengths : (groupsFrom ref (flat pairs)).length = output.outputs.length := by
    rw [groupsFrom_length, ← all, ← outputs, List.length_map, List.length_map]
  refine ⟨kept, zipped.map fun z => mapPair Write.result (writes z), (flat (zipped.map writes)).map Write.news,
    filtered, ?_, ?_, ?_, ?_, ?_, ?_, ?_⟩
  · rw [← isSome_of_lags lags]
    exact keeps
  · unfold appendNewTokens
    rw [bind_of_ok appended, mapIdx_notPrompt lengths, ← written, map_notPrompt, result, pure_apply]
  · rw [advanced]
    exact stepped
  · rw [← rows, List.map_map, List.map_map]
    exact List.map_congr_left fun z _ => by simp [mapPair, writes]
  · rw [advanced]
    exact within_append (held.length_eq.trans (List.length_map _).symm)
  · rw [advanced]
    exact fun new member => news_tokens held member
  · intro pair member
    rw [← rows] at member
    obtain ⟨z, found, rfl⟩ := List.mem_map.mp member
    have there : (writes z).2 ∈ flat (zipped.map writes) :=
      mem_flat.mpr ⟨_, List.mem_map_of_mem found, .inr rfl⟩
    exact ⟨_, List.mem_map_of_mem there⟩

end Vllm.SpecDecode.MultiStep
