import VllmProofs.SpecDecode.MultiStepHeap

/-!
The expanded request as a list of rows, each a group with an object of its own: the original groups, in
front of which stand the copies of those with a bonus token. One append step changes each row, and adds to the
lists of newly appended tokens of the heap that was given.
-/

namespace Vllm.SpecDecode.MultiStep
open Doubled Exec

/-- A group of the expanded request, with its object. -/
structure Row where
  requestId : ℕ
  isPrompt : Bool
  seqId : SeqId
  cell : Cell

namespace Row

def group (ref : SeqDataRef) (row : Row) : SequenceGroupMetadata := ⟨row.requestId, row.isPrompt, [(row.seqId, ref)]⟩

def view (row : Row) : GroupView := ⟨row.requestId, row.isPrompt, [(row.seqId, row.cell.view)]⟩

/-- Its object is well formed. -/
def Counted (row : Row) : Prop := row.cell.numComputedTokens ≤ row.cell.len

def append (tokenId : TokenId) (logprob : ℚ) (row : Row) : Row :=
  { row with isPrompt := false, cell := (row.cell.append tokenId logprob).advance 1 }

end Row

/-- The groups of the rows, whose objects begin at `ref`. -/
def groupsFrom : SeqDataRef → List Row → List SequenceGroupMetadata
  | _, [] => []
  | ref, row :: rows => row.group ref :: groupsFrom (ref + 1) rows

def heapOf (base : Heap) (rows : List Row) : Heap := base.extend (rows.map (·.cell))

variable {base : Heap} {rows before after : List Row} {row front : Row} {ref : SeqDataRef} {bonus : Finset SeqId}
  {groups : List SequenceGroupMetadata} {indices : List ℕ}

theorem groupsFrom_append (ref : SeqDataRef) (first second : List Row) :
    groupsFrom ref (first ++ second) = groupsFrom ref first ++ groupsFrom (ref + first.length) second := by
  induction first generalizing ref with
  | nil => rfl
  | cons row first ih =>
    rw [List.cons_append, groupsFrom, groupsFrom, ih, List.length_cons, List.cons_append, Nat.add_right_comm,
      Nat.add_assoc]

@[simp] theorem groupsFrom_length (ref : SeqDataRef) (rows : List Row) :
    (groupsFrom ref rows).length = rows.length := by
  induction rows generalizing ref with
  | nil => rfl
  | cons row rows ih => rw [groupsFrom, List.length_cons, ih, List.length_cons]

theorem groupsFrom_getElem? (ref : SeqDataRef) (before after : List Row) (row : Row) :
    (groupsFrom ref (before ++ row :: after))[before.length]? = some (row.group (ref + before.length)) := by
  rw [groupsFrom_append, groupsFrom, List.getElem?_append_right (by simp)]
  simp

theorem map_groupView (base : Heap) (before rows : List Row) :
    (groupsFrom (base.seqData.length + before.length) rows).map (heapOf base (before ++ rows)).groupView =
      rows.map Row.view := by
  induction rows generalizing before with
  | nil => rfl
  | cons row rows ih =>
    have later := ih (before ++ [row])
    rw [List.length_append, List.length_singleton, ← Nat.add_assoc, List.append_assoc, List.singleton_append] at later
    have here : (heapOf base (before ++ row :: rows)).view (base.seqData.length + before.length) = row.cell.view := by
      have read := view_extend base (before.map (·.cell)) (rows.map (·.cell)) row.cell
      rw [List.length_map] at read
      unfold heapOf
      rw [List.map_append, List.map_cons]
      exact read
    rw [groupsFrom, List.map_cons, later, List.map_cons]
    congr 1
    unfold Heap.groupView Row.group Row.view
    rw [List.map_cons, List.map_nil, here]

/-! ### Expanding -/

/-- A group with one sequence. -/
structure SingleGroup where
  requestId : ℕ
  isPrompt : Bool
  seqId : SeqId
  ref : SeqDataRef
  deriving DecidableEq

namespace SingleGroup

def group (g : SingleGroup) : SequenceGroupMetadata := ⟨g.requestId, g.isPrompt, [(g.seqId, g.ref)]⟩

/-- What a caller promises of the group: its object is there, and no more tokens are computed than there are; a sequence
with a bonus token has an output token. -/
structure Ready (base : Heap) (bonus : Finset SeqId) (g : SingleGroup) : Prop where
  valid : base.Valid g.ref
  counted : (base.obj g.ref).numComputedTokens ≤
    (base.outputTokenIds g.ref).length + (base.obj g.ref).promptTokenIds.length
  outputs : g.seqId ∈ bonus → base.outputTokenIds g.ref ≠ []

def original (base : Heap) (g : SingleGroup) : Row :=
  ⟨g.requestId, g.isPrompt, g.seqId, base.copied g.ref (base.outputTokenIds g.ref)⟩

def copy (base : Heap) (g : SingleGroup) : Row :=
  ⟨g.requestId, g.isPrompt, g.seqId, (base.copied g.ref (base.outputTokenIds g.ref).dropLast).advance (-1)⟩

def expanded (base : Heap) (bonus : Finset SeqId) (g : SingleGroup) : Option Row × Row :=
  (if g.seqId ∈ bonus then some (g.copy base) else none, g.original base)

end SingleGroup

theorem exists_singleGroups (single : ∀ group ∈ groups, group.seqData.length = 1) :
    ∃ singles : List SingleGroup, groups = singles.map SingleGroup.group := by
  induction groups with
  | nil => exact ⟨[], rfl⟩
  | cons group groups ih =>
    obtain ⟨singles, rfl⟩ := ih fun other member => single other (List.mem_cons_of_mem _ member)
    obtain ⟨⟨seqId, ref⟩, entry⟩ := List.length_eq_one_iff.mp (single group List.mem_cons_self)
    exact ⟨⟨group.requestId, group.isPrompt, seqId, ref⟩ :: singles, by
      rw [List.map_cons, SingleGroup.group, ← entry]⟩

variable {g : SingleGroup}

theorem shallowCopy_heapOf (valid : base.Valid g.ref) (rows : List Row) :
    shallowCopySeqGroupMetadata g.group (heapOf base rows) =
      .ok ((g.original base).group (base.seqData.length + rows.length)) (heapOf base (rows ++ [g.original base])) := by
  have copied := copyEntries_single id (fun _ => pure ()) g.seqId valid (rows.map (·.cell)) rfl
  rw [List.length_map] at copied
  unfold shallowCopySeqGroupMetadata
  rw [heapOf, SingleGroup.group, bind_of_ok copied, pure_apply]
  simp [SingleGroup.original, Row.group, heapOf]

theorem copyExcludingLast_heapOf (ready : g.Ready base bonus) (member : g.seqId ∈ bonus) (rows : List Row) :
    copySeqMetadataExcludingLastToken g.group bonus (heapOf base rows) =
      .ok ((g.copy base).group (base.seqData.length + rows.length)) (heapOf base (rows ++ [g.copy base])) := by
  have within : (base.copied g.ref (base.outputTokenIds g.ref).dropLast).numComputedTokens + -1 ≤
      (base.copied g.ref (base.outputTokenIds g.ref).dropLast).len := by
    have counted := ready.counted
    unfold Cell.len Heap.copied
    dsimp only
    rw [List.length_dropLast]
    omega
  have lowered := updateNumComputedTokens_extend (-1) base (rows.map (·.cell)) [] within
  have copied := copyEntries_single List.dropLast (updateNumComputedTokens · (-1)) g.seqId ready.valid
    (h := base.extend (rows.map (·.cell) ++ [(g.copy base).cell])) (rows.map (·.cell)) (by exact lowered)
  rw [List.length_map] at copied
  have chosen : g.group.seqData.filter (fun entry => entry.1 ∈ bonus) = [(g.seqId, g.ref)] := by
    simp [SingleGroup.group, member]
  unfold copySeqMetadataExcludingLastToken
  rw [chosen, heapOf, bind_of_ok copied, pure_apply]
  simp [SingleGroup.copy, SingleGroup.group, Row.group, heapOf]

theorem hasBonusTokens_single (bonus : Finset SeqId) (g : SingleGroup) :
    hasBonusTokens bonus g.group = decide (g.seqId ∈ bonus) := by
  simp [hasBonusTokens, SingleGroup.group]

theorem expandFrom_heapOf {singles : List SingleGroup} (ready : ∀ g ∈ singles, g.Ready base bonus) (rows : List Row)
    (indices : List ℕ) :
    expandFrom bonus (singles.map SingleGroup.group) (groupsFrom base.seqData.length rows) indices
        (heapOf base rows) =
      .ok (groupsFrom base.seqData.length (rows ++ flat (singles.map (·.expanded base bonus))),
          indices ++ places rows.length (singles.map (·.expanded base bonus)))
        (heapOf base (rows ++ flat (singles.map (·.expanded base bonus)))) := by
  induction singles generalizing rows indices with
  | nil => simp [expandFrom, places, pure, EStateM.pure]
  | cons g singles ih =>
    have here := ready g List.mem_cons_self
    have later := ih fun other member => ready other (List.mem_cons_of_mem g member)
    have added (rows : List Row) (row : Row) : groupsFrom base.seqData.length rows ++
        [row.group (base.seqData.length + rows.length)] = groupsFrom base.seqData.length (rows ++ [row]) := by
      rw [groupsFrom_append]
      rfl
    rw [List.map_cons, expandFrom, hasBonusTokens_single]
    by_cases member : g.seqId ∈ bonus
    · rw [if_pos (decide_eq_true member)]
      have lagging := copyExcludingLast_heapOf here member rows
      have original := shallowCopy_heapOf here.valid (rows ++ [g.copy base])
      rw [bind_of_ok lagging, bind_of_ok (pure_apply _ _)]
      dsimp only
      rw [bind_of_ok original, added, added, later]
      simp [SingleGroup.expanded, member, places]
    · rw [if_neg (by simpa using member)]
      have original := shallowCopy_heapOf here.valid rows
      rw [bind_of_ok (pure_apply _ _)]
      dsimp only
      rw [bind_of_ok original, added, later]
      simp [SingleGroup.expanded, member, places]

end Vllm.SpecDecode.MultiStep

namespace Vllm.SpecDecode.MultiStep
open Doubled Exec

namespace GroupOutput

def token (out : GroupOutput) : TokenId := (out.samples.head?.map (·.outputToken)).getD 0

def logprob (out : GroupOutput) : ℚ :=
  (out.samples.head?.bind fun sample => sample.logprobs.lookup sample.outputToken).getD 0

end GroupOutput

/-- One token was sampled for the one sequence of the group, and its log probability is there. -/
def Samples (group : GroupView) (out : GroupOutput) : Prop :=
  ∃ sample logprob, out.samples = [sample] ∧ group.seqs.map Prod.fst = [sample.parentSeqId] ∧
    sample.logprobs.lookup sample.outputToken = some logprob

structure Write where
  row : Row
  tokenId : TokenId
  logprob : ℚ

namespace Write

def result (w : Write) : Row := w.row.append w.tokenId w.logprob

/-- The list of newly appended tokens that is reached, and the token. -/
def news (w : Write) : ℕ × TokenId := (w.row.cell.newAppendedTokens, w.tokenId)

end Write

def Heap.appendAll (base : Heap) (news : List (ℕ × TokenId)) : Heap :=
  news.foldl (fun h new => h.appendNew new.1 new.2) base

def lastToken (row : Row) : TokenId := row.cell.outputTokenIds.getLast?.getD 0

def writes (pair : Option (Row × GroupOutput) × (Row × GroupOutput)) : Option Write × Write :=
  (pair.1.map fun front => ⟨front.1, lastToken pair.2.1, front.2.logprob⟩, ⟨pair.2.1, pair.2.2.token, pair.2.2.logprob⟩)

/-- The row and the copy can be appended to. -/
structure Fits (pair : Option (Row × GroupOutput) × (Row × GroupOutput)) : Prop where
  counted : pair.2.1.Counted
  samples : Samples pair.2.1.view pair.2.2
  frontCounted : ∀ front ∈ pair.1, front.1.Counted
  frontSamples : ∀ front ∈ pair.1, Samples front.1.view front.2
  outputs : ∀ front ∈ pair.1, pair.2.1.cell.outputTokenIds ≠ []

variable {base : Heap} {before after : List Row} {row front : Row} {out : GroupOutput} {ref : SeqDataRef}
  {groups : List SequenceGroupMetadata} {indices : List ℕ} {count : ℕ}

theorem appendTokenId_heapOf (tokenId : TokenId) (logprob : ℚ) (size : base.seqData.length = ref)
    (before after : List Row) (row : Row) :
    appendTokenId (ref + before.length) tokenId logprob (heapOf base (before ++ row :: after)) =
      .ok () ((base.appendNew row.cell.newAppendedTokens tokenId).extend
        (before.map (·.cell) ++ row.cell.append tokenId logprob :: after.map (·.cell))) := by
  have step := appendTokenId_extend tokenId logprob base (before.map (·.cell)) (after.map (·.cell)) row.cell
  rw [List.length_map, size] at step
  unfold heapOf
  rw [List.map_append, List.map_cons, step]

theorem updateNumComputedTokens_heapOf (tokenId : TokenId) (logprob : ℚ) (size : base.seqData.length = ref)
    (counted : row.Counted) (before after : List Row) :
    updateNumComputedTokens (ref + before.length) 1 (base.extend
        (before.map (·.cell) ++ row.cell.append tokenId logprob :: after.map (·.cell))) =
      .ok () (heapOf base (before ++ row.append tokenId logprob :: after)) := by
  have within : (row.cell.append tokenId logprob).numComputedTokens + 1 ≤ (row.cell.append tokenId logprob).len := by
    have counted : row.cell.numComputedTokens ≤ row.cell.len := counted
    have longer : (row.cell.append tokenId logprob).len = row.cell.len + 1 := by
      simp [Cell.len, Cell.append]
      ring
    rw [longer]
    exact Int.add_le_add_right counted 1
  have step := updateNumComputedTokens_extend 1 base (before.map (·.cell)) (after.map (·.cell)) within
  rw [List.length_map, size] at step
  rw [step]
  simp [heapOf, Row.append]

theorem lookUp_group (row : Row) (ref : SeqDataRef) (h : Heap) :
    lookUp row.seqId (row.group ref).seqData h = .ok ref h := by
  simp [lookUp, Row.group]

theorem lastOutputToken_heapOf (size : base.seqData.length = ref) (before after : List Row) (row : Row)
    (outputs : row.cell.outputTokenIds ≠ []) :
    lastOutputToken (row.group (ref + before.length)) (heapOf base (before ++ row :: after)) =
      .ok (lastToken row) (heapOf base (before ++ row :: after)) := by
  have read := outputTokenIds_extend base (before.map (·.cell)) (after.map (·.cell)) row.cell
  rw [List.length_map, size] at read
  have same : (heapOf base (before ++ row :: after)).outputTokenIds (ref + before.length) = row.cell.outputTokenIds := by
    unfold heapOf
    rw [List.map_append, List.map_cons]
    exact read
  have last : row.cell.outputTokenIds.getLast? = some (lastToken row) := by
    rw [lastToken, List.getLast?_eq_getLast_of_ne_nil outputs]
    rfl
  unfold lastOutputToken Row.group
  dsimp only
  rw [get_bind, same, last]
  rfl

theorem appendSamples_front (size : base.seqData.length = ref) (samples : Samples front.view out)
    (counted : front.Counted) (place : indices[count]? = some (before.length + 1))
    (group : groups[before.length + 1]? = some (row.group (ref + (before.length + 1))))
    (outputs : row.cell.outputTokenIds ≠ []) (after : List Row) :
    appendSamples groups indices before.length (front.group (ref + before.length)) count out.samples
        (heapOf base (before ++ front :: row :: after)) =
      .ok count (heapOf (base.appendNew front.cell.newAppendedTokens (lastToken row))
        (before ++ front.append (lastToken row) out.logprob :: row :: after)) := by
  obtain ⟨sample, logprob, one, parent, scored⟩ := samples
  have parent : front.seqId = sample.parentSeqId := by simpa [Row.view] using parent
  have value : out.logprob = logprob := by simp [GroupOutput.logprob, one, scored]
  have last := lastOutputToken_heapOf size (before ++ [front]) after row outputs
  rw [List.length_append, List.length_singleton, List.append_assoc, List.singleton_append] at last
  have write := appendTokenId_heapOf (lastToken row) logprob size before (row :: after) front
  have size' : (base.appendNew front.cell.newAppendedTokens (lastToken row)).seqData.length = ref := size
  have update := updateNumComputedTokens_heapOf (lastToken row) logprob size' counted before (row :: after)
  rw [one, appendSamples, ← parent, bind_of_ok (lookUp_group front _ _), lookUp, scored, bind_of_ok (pure_apply _ _),
    itemAt, place, bind_of_ok (pure_apply _ _), if_pos (Nat.ne_of_lt (Nat.lt_succ_self _)), itemAt, group,
    bind_of_ok (pure_apply _ _), bind_of_ok last, bind_of_ok write, bind_of_ok update, value]
  rfl

theorem appendSamples_original (size : base.seqData.length = ref) (samples : Samples row.view out)
    (counted : row.Counted) (place : indices[count]? = some before.length) (after : List Row) :
    appendSamples groups indices before.length (row.group (ref + before.length)) count out.samples
        (heapOf base (before ++ row :: after)) =
      .ok (count + 1) (heapOf (base.appendNew row.cell.newAppendedTokens out.token)
        (before ++ row.append out.token out.logprob :: after)) := by
  obtain ⟨sample, logprob, one, parent, scored⟩ := samples
  have parent : row.seqId = sample.parentSeqId := by simpa [Row.view] using parent
  have value : out.logprob = logprob := by simp [GroupOutput.logprob, one, scored]
  have drawn : out.token = sample.outputToken := by simp [GroupOutput.token, one]
  have write := appendTokenId_heapOf sample.outputToken logprob size before after row
  have size' : (base.appendNew row.cell.newAppendedTokens sample.outputToken).seqData.length = ref := size
  have update := updateNumComputedTokens_heapOf sample.outputToken logprob size' counted before after
  rw [one, appendSamples, ← parent, bind_of_ok (lookUp_group row _ _), lookUp, scored, bind_of_ok (pure_apply _ _),
    itemAt, place, bind_of_ok (pure_apply _ _), if_neg (fun different => different rfl), bind_of_ok write,
    bind_of_ok update, value, drawn]
  rfl

theorem drop_eq_cons {α : Type} {xs ys : List α} {y : α} {n : ℕ} (left : xs.drop n = y :: ys) :
    xs[n]? = some y ∧ xs.drop (n + 1) = ys := by
  constructor
  · rw [← List.head?_drop, left]
    rfl
  · rw [← List.tail_drop, left]
    rfl

/-- The loop, from the rows that come after `before`. -/
theorem appendFrom_heapOf {pairs : List (Option (Row × GroupOutput) × (Row × GroupOutput))}
    (fit : ∀ pair ∈ pairs, Fits pair) (size : base.seqData.length = ref) {first before : List Row}
    (passed : first.length = before.length) (left : indices.drop count = places before.length pairs)
    (all : groups = groupsFrom ref (first ++ (flat pairs).map Prod.fst)) :
    appendFrom groups indices before.length count
        ((groupsFrom (ref + before.length) ((flat pairs).map Prod.fst)).zip ((flat pairs).map Prod.snd))
        (heapOf base (before ++ (flat pairs).map Prod.fst)) =
      .ok () (heapOf (base.appendAll ((flat (pairs.map writes)).map Write.news))
        (before ++ (flat (pairs.map writes)).map Write.result)) := by
  induction pairs generalizing base first before count with
  | nil => rfl
  | cons pair pairs ih =>
    have here := fit pair List.mem_cons_self
    have later := fun other member => fit other (List.mem_cons_of_mem pair member)
    obtain ⟨copy, row, out⟩ := pair
    cases copy with
    | none =>
      obtain ⟨place, left⟩ := drop_eq_cons left
      have step := @appendSamples_original _ _ _ _ _ groups _ _ size here.samples here.counted place
        ((flat pairs).map Prod.fst)
      have rest := @ih (base.appendNew row.cell.newAppendedTokens out.token) _ later size (first ++ [row])
        (before ++ [row.append out.token out.logprob]) (by simp [passed]) (by simpa using left) (by simpa using all)
      rw [List.length_append, List.length_singleton, ← Nat.add_assoc, List.append_assoc, List.singleton_append] at rest
      refine (bind_of_ok step).trans (rest.trans ?_)
      simp [writes, Write.news, Write.result, Heap.appendAll]
    | some lead =>
      obtain ⟨front, other⟩ := lead
      obtain ⟨place, left⟩ := drop_eq_cons left
      have group : groups[before.length + 1]? = some (row.group (ref + (before.length + 1))) := by
        have read := groupsFrom_getElem? ref (first ++ [front]) ((flat pairs).map Prod.fst) row
        rw [List.length_append, List.length_singleton, passed] at read
        rw [all, ← read]
        simp
      have lagging := appendSamples_front size (here.frontSamples _ rfl) (here.frontCounted _ rfl) place group
        (here.outputs _ rfl) ((flat pairs).map Prod.fst)
      have size₁ : (base.appendNew front.cell.newAppendedTokens (lastToken row)).seqData.length = ref := size
      have step := @appendSamples_original _ (before ++ [front.append (lastToken row) other.logprob]) _ _ _ groups _
        count size₁ here.samples here.counted (by simpa using place) ((flat pairs).map Prod.fst)
      have rest := @ih ((base.appendNew front.cell.newAppendedTokens (lastToken row)).appendNew
        row.cell.newAppendedTokens out.token) _ later size (first ++ [front, row])
        (before ++ [front.append (lastToken row) other.logprob, row.append out.token out.logprob])
        (by simp [passed]) (by simpa using left) (by simpa using all)
      rw [List.length_append, List.length_singleton, ← Nat.add_assoc, List.append_assoc, List.singleton_append] at step
      rw [List.length_append, List.length_cons, List.length_singleton, ← Nat.add_assoc, ← Nat.add_assoc,
        ← Nat.add_assoc, List.append_assoc, List.cons_append, List.singleton_append] at rest
      refine (bind_of_ok lagging).trans ((bind_of_ok step).trans ?_)
      refine Eq.trans ?_ (rest.trans ?_)
      · rw [List.append_assoc, List.singleton_append]
        rfl
      · simp [writes, Write.news, Write.result, Heap.appendAll]

end Vllm.SpecDecode.MultiStep
