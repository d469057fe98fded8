import VllmProofs.Sequence
import VllmProofs.SpecDecode.VerifyTokens

/-!
`HiddenStates`: the rows that the target model hands on to the draft model. A row of a tensor is given
by where the target computed it, and it is found by the position of its sequence in a list.
-/

namespace Vllm.SpecDecode

/-- Beside its parameters, what the workers read of a group, with its one sequence: batches with
several sequences in a group are not supported. -/
structure SequenceGroupMetadata where
  requestId : RequestId
  seqId : SeqId
  isPrompt : Bool
  doSample : Bool
  tokenIds : List TokenId
  numComputedTokens : ℕ
  tokenChunkSize : ℕ
  numSpeculativeTokens : Option ℕ := none
  /-- How many tokens of a prompt chunk get a row for their log probabilities. -/
  promptLogprobRows : ℕ := 0
  deriving DecidableEq, Repr

def getAllSeqIds (groups : List SequenceGroupMetadata) : List SeqId := groups.map (·.seqId)

/-- Where a row comes from: padding, or the target's pass number `pass`, in which it is the row of a
prompt token, or of the `index`-th token that was scored. -/
inductive HiddenRow where
  | zeros
  | prompt (seqId : SeqId) (pass : ℕ)
  | state (seqId : SeqId) (pass index : ℕ)
  deriving DecidableEq, Repr

structure HiddenStates where
  hiddenStates : List HiddenRow
  secondLastTokenHiddenStates : Option (List HiddenRow)
  seqIds : List SeqId
  deriving DecidableEq, Repr

def indexOf (ids : List SeqId) (seqId : SeqId) : Except PyError ℕ :=
  if seqId ∈ ids then .ok (ids.idxOf seqId) else .error (.valueError "is not in list")

def selectRows (rows : List HiddenRow) (index : List ℕ) : Except PyError (List HiddenRow) :=
  index.mapM fun i => if h : i < rows.length then .ok rows[i] else .error .indexError

namespace HiddenStates

def init (rows : List HiddenRow) (groups : List SequenceGroupMetadata)
    (secondLast : Option (List HiddenRow)) : Except PyError HiddenStates :=
  if groups.length = rows.length then
    .ok { hiddenStates := rows, secondLastTokenHiddenStates := secondLast, seqIds := getAllSeqIds groups }
  else .error .assertionError

def update (hs : HiddenStates) (rows : List HiddenRow) (groups : List SequenceGroupMetadata)
    (secondLast : Option (List HiddenRow)) : Except PyError HiddenStates :=
  if groups.length = rows.length then
    .ok { seqIds := hs.seqIds ++ getAllSeqIds groups
          hiddenStates := hs.hiddenStates ++ rows
          secondLastTokenHiddenStates := hs.secondLastTokenHiddenStates.map fun second =>
            second ++ secondLast.getD (List.replicate rows.length .zeros) }
  else .error .assertionError

def prune (hs : HiddenStates) (groups : List SequenceGroupMetadata) : Except PyError HiddenStates :=
  let seqIds := getAllSeqIds groups
  if seqIds = hs.seqIds then .ok hs
  else do
    let index ← seqIds.mapM (indexOf hs.seqIds)
    let rows ← selectRows hs.hiddenStates index
    match hs.secondLastTokenHiddenStates with
    | none => .ok { hs with hiddenStates := rows, seqIds }
    | some second =>
      let secondRows ← selectRows second index
      .ok { hiddenStates := rows, secondLastTokenHiddenStates := some secondRows, seqIds }

def expandedIndex (seqIds : List SeqId) (bonus : Finset SeqId) : List ℕ :=
  seqIds.flatMap fun seqId =>
    let i := seqIds.idxOf seqId
    if seqId ∈ bonus then [i + seqIds.length, i] else [i]

def expandWithBonusTokens (hs : HiddenStates) (bonus : Finset SeqId) : Except PyError HiddenStates :=
  match hs.secondLastTokenHiddenStates with
  | none => .ok hs
  | some second =>
    if bonus = ∅ then .ok hs
    else do
      let rows ← selectRows (hs.hiddenStates ++ second) (expandedIndex hs.seqIds bonus)
      .ok { hs with hiddenStates := rows }

-- Rows by sequence

/-- The tensors have a row for each entry of `_seq_ids`. -/
structure Shaped (hs : HiddenStates) : Prop where
  rows : hs.hiddenStates.length = hs.seqIds.length
  second : ∀ second ∈ hs.secondLastTokenHiddenStates, second.length = hs.seqIds.length

def row (hs : HiddenStates) (seqId : SeqId) : HiddenRow :=
  hs.hiddenStates.getD (hs.seqIds.idxOf seqId) .zeros

/-- The row that is found for its copy without the bonus token. -/
def secondRow (hs : HiddenStates) (seqId : SeqId) : HiddenRow :=
  (hs.secondLastTokenHiddenStates.getD []).getD (hs.seqIds.idxOf seqId) .zeros

end HiddenStates

theorem mapM_ok {α β : Type} {f : α → Except PyError β} {g : α → β} {xs : List α}
    (each : ∀ x ∈ xs, f x = .ok (g x)) : xs.mapM f = .ok (xs.map g) := by
  induction xs with
  | nil => rfl
  | cons x xs ih =>
    rw [List.mapM_cons, each x List.mem_cons_self, ih fun y mem => each y (List.mem_cons_of_mem _ mem)]
    rfl

theorem mapM_ne_ok {α β : Type} {f : α → Except PyError β} {x : α} {xs : List α} (mem : x ∈ xs)
    (fails : ∀ y, f x ≠ .ok y) (ys : List β) : xs.mapM f ≠ .ok ys := by
  induction xs generalizing ys with
  | nil => simp at mem
  | cons head rest ih =>
    rw [List.mapM_cons]
    intro done
    cases first : f head with
    | error e => rw [first] at done; cases done
    | ok y =>
      rw [first] at done
      rcases List.mem_cons.mp mem with rfl | mem
      · exact fails y first
      · cases tail : rest.mapM f with
        | error e => rw [tail] at done; cases done
        | ok zs => exact ih mem zs tail

theorem selectRows_ok (rows : List HiddenRow) {index : List ℕ} (bound : ∀ i ∈ index, i < rows.length) :
    selectRows rows index = .ok (index.map fun i => rows.getD i .zeros) := by
  apply mapM_ok
  intro i mem
  rw [dif_pos (bound i mem), List.getD_eq_getElem _ _ (bound i mem)]

variable {group : SequenceGroupMetadata}

theorem getD_map_idxOf {groups : List SequenceGroupMetadata} (distinct : (getAllSeqIds groups).Nodup)
    (value : SequenceGroupMetadata → HiddenRow) (mem : group ∈ groups) :
    (groups.map value).getD ((getAllSeqIds groups).idxOf group.seqId) .zeros = value group := by
  obtain ⟨i, inside, rfl⟩ := List.getElem_of_mem mem
  have position : (getAllSeqIds groups).idxOf groups[i].seqId = i := by
    have bound : i < (getAllSeqIds groups).length := by simpa [getAllSeqIds] using inside
    have same : groups[i].seqId = (getAllSeqIds groups)[i] := by simp [getAllSeqIds]
    rw [same, distinct.idxOf_getElem]
  rw [position, List.getD_eq_getElem _ _ (by simpa using inside), List.getElem_map]

namespace HiddenStates

variable {hs hs' : HiddenStates} {groups : List SequenceGroupMetadata}

theorem prune_fails (mem : group ∈ groups)
    (missing : group.seqId ∉ hs.seqIds) : hs.prune groups ≠ .ok hs' := by
  have listed : group.seqId ∈ getAllSeqIds groups := List.mem_map_of_mem mem
  have differ : getAllSeqIds groups ≠ hs.seqIds := by
    intro same
    exact missing (same ▸ listed)
  simp only [prune, if_neg differ]
  intro done
  cases found : (getAllSeqIds groups).mapM (indexOf hs.seqIds) with
  | error e => rw [found] at done; cases done
  | ok index =>
    exact mapM_ne_ok listed (fun y => by simp [indexOf, missing]) index found

theorem idxOf_lt {ids : List SeqId} {seqId : SeqId} (mem : seqId ∈ ids) : ids.idxOf seqId < ids.length :=
  List.idxOf_lt_length_iff.mpr mem

theorem prune_returns (shaped : hs.Shaped) (present : ∀ seqId ∈ getAllSeqIds groups, seqId ∈ hs.seqIds) :
    ∃ pruned, hs.prune groups = .ok pruned := by
  have index : (getAllSeqIds groups).mapM (indexOf hs.seqIds) =
      .ok ((getAllSeqIds groups).map hs.seqIds.idxOf) :=
    mapM_ok fun seqId mem => if_pos (present seqId mem)
  have bound : ∀ i ∈ (getAllSeqIds groups).map hs.seqIds.idxOf, i < hs.seqIds.length := by
    intro i mem
    obtain ⟨seqId, listed, rfl⟩ := List.mem_map.mp mem
    exact idxOf_lt (present seqId listed)
  simp only [prune]
  split_ifs
  · exact ⟨_, rfl⟩
  · simp only [index, selectRows_ok hs.hiddenStates fun i mem => shaped.rows ▸ bound i mem, bind, Except.bind]
    split
    · exact ⟨_, rfl⟩
    · rename_i second found
      rw [selectRows_ok second fun i mem => shaped.second second found ▸ bound i mem]
      exact ⟨_, rfl⟩

end HiddenStates
end Vllm.SpecDecode
