import VllmProofs.Base
import VllmProofs.SpecDecode.BaseSampler

/-!
The generators that `SpecDecodeWorker._verify_tokens` hands to the rejection sampler, and the rows they
are asked for. Numbers are taken exactly; a tensor row is given by its index.
-/

namespace Vllm.SpecDecode

abbrev RequestId := ℕ

/-- PyTorch's random numbers: `n` samples of a generator, and the generator after them. -/
class Torch (G : Type) where
  rand : ℕ → G → List ℚ × G
  exponential : ℕ → G → List ℚ × G

structure Draw where
  row : ℕ
  source : Option RequestId
  deriving DecidableEq, Repr

/-- The default generator, and the generator objects of the requests in `keys`. `draws` only records
the calls. -/
structure Generators (G : Type) where
  default : G
  keys : List RequestId
  object : RequestId → G
  draws : List Draw := []

namespace Generators

variable {G : Type}

/-- One call for the rows `rows`, of the generator of `source`. -/
def ask (s : Generators G) (sample : G → List ℚ × G) (source : Option RequestId)
    (rows : List ℕ) : List ℚ × Generators G :=
  let draws := s.draws ++ rows.map ({ row := ·, source })
  match source with
  | none =>
    let r := sample s.default
    (r.1, { s with default := r.2, draws })
  | some id =>
    let r := sample (s.object id)
    (r.1, { s with object := Function.update s.object id r.2, draws })

end Generators

-- The rows of a batch

/-- A sequence of the batch, with its rows of the score and proposal tensors. -/
structure VerifyRow where
  requestId : RequestId
  seed : Option ℤ
  proposalLen : ℕ
  probs : List (List ℚ)
  tokenIds : List ℤ
  proposalProbs : List (List ℚ)
  proposalTokenIds : List ℕ

/-- The request whose generator is the row's own. -/
def VerifyRow.own (row : VerifyRow) : Option RequestId := row.seed.map fun _ => row.requestId

/-- `split_batch_by_proposal_len`: the indices with and without proposals. -/
def specIndices (rows : List VerifyRow) : List ℕ :=
  (rows.zipIdx.filter fun (row, _) => row.proposalLen ≠ 0).map Prod.snd

def nonSpecIndices (rows : List VerifyRow) : List ℕ :=
  (rows.zipIdx.filter fun (row, _) => row.proposalLen = 0).map Prod.snd

/-- `seeded_seqs`, from the row `idx` on: the keys are rows of the whole batch. -/
def seededSeqs (keys : List RequestId) :
    ℕ → List VerifyRow → Except PyError (List (ℕ × RequestId))
  | _, [] => .ok []
  | idx, row :: rows =>
    match row.seed with
    | none => seededSeqs keys (idx + 1) rows
    | some _ =>
      if row.requestId ∈ keys then
        (seededSeqs keys (idx + 1) rows).map ((idx, row.requestId) :: ·)
      else .error .keyError

-- The sampler

section
variable {G : Type}

/-- A loop over rows that asks for each of them in turn. -/
def fillRows (sample : G → List ℚ × G) (seeded : List (ℕ × RequestId)) :
    List ℕ → (ℕ → List ℚ) → Generators G → (ℕ → List ℚ) × Generators G
  | [], rows, s => (rows, s)
  | idx :: rest, rows, s =>
    let r := s.ask sample (seeded.lookup idx) [idx]
    fillRows sample seeded rest (Function.update rows idx r.1) r.2

def tensorRow (numbers : List ℚ) (width i : ℕ) : List ℚ := (numbers.drop (i * width)).take width

variable [Torch G]

def createUniformSamples (seeded : List (ℕ × RequestId)) (batchSize k : ℕ) (s : Generators G) :
    (ℕ → List ℚ) × Generators G :=
  if seeded.isEmpty then
    let r := s.ask (Torch.rand (batchSize * k)) none (List.range batchSize)
    (tensorRow r.1 k, r.2)
  else
    let seededIndices := (List.range batchSize).filter fun idx => (seeded.lookup idx).isSome
    let nonSeededIndices := (List.range batchSize).filter fun idx => (seeded.lookup idx).isNone
    let r := fillRows (Torch.rand k) seeded seededIndices (fun _ => []) s
    if nonSeededIndices = [] then r
    else
      let u := r.2.ask (Torch.rand (nonSeededIndices.length * k)) none nonSeededIndices
      (fun idx => if idx ∈ nonSeededIndices then tensorRow u.1 k (nonSeededIndices.idxOf idx)
        else r.1 idx, u.2)

/-- The exponential samples of `_multinomial`: `width` of them for each row of the batch. -/
def exponentialSamples (seeded : List (ℕ × RequestId)) (batchSize width : ℕ) (s : Generators G) :
    (ℕ → List ℚ) × Generators G :=
  if seeded.isEmpty then
    let r := s.ask (Torch.exponential (batchSize * width)) none (List.range batchSize)
    (tensorRow r.1 width, r.2)
  else fillRows (Torch.exponential width) seeded (List.range batchSize) (fun _ => []) s

end

def tiny : ℚ := 1 / 2 ^ 126

def recoveredProbs (target draft : List ℚ) : List ℚ :=
  let f := List.zipWith (fun q p => max (q - p) tiny) target draft
  f.map (· / f.sum)

def argmax (xs : List ℚ) : ℕ := xs.findIdx fun x => xs.all (· ≤ x)

namespace VerifyRow

/-- `uniform_rand < capped_ratio` -/
def accepted (row : VerifyRow) (k : ℕ) (uniform : List ℚ) : List Bool :=
  (List.range k).map fun i =>
    let token := row.proposalTokenIds.getD i 0
    let ratio := (row.probs.getD i []).getD token 0 / (row.proposalProbs.getD i []).getD token 0
    decide (uniform.getD i 0 < min ratio 1)

/-- `probs.div_(q).argmax(dim=1)` -/
def recovered (row : VerifyRow) (k vocab : ℕ) (q : List ℚ) : List ℤ :=
  (List.range k).map fun i =>
    (argmax (List.zipWith (· / ·) (recoveredProbs (row.probs.getD i []) (row.proposalProbs.getD i []))
      (tensorRow q vocab i)) : ℤ)

def sampled (row : VerifyRow) (k vocab : ℕ) (uniform q : List ℚ) : List ℤ :=
  createOutput (row.accepted k uniform) (row.recovered k vocab q)
    (row.proposalTokenIds.map Int.ofNat) (row.tokenIds.getLastD (-1))

def unproposed (row : VerifyRow) (k : ℕ) : List ℤ :=
  row.tokenIds.headD (-1) :: List.replicate k (-1)

end VerifyRow

section
variable {G : Type} [Torch G]

/-- `RejectionSampler.forward`, on the rows with proposals. -/
def rejectionSample (seeded : List (ℕ × RequestId)) (k vocab : ℕ) (rows : List VerifyRow)
    (s : Generators G) : List (List ℤ) × Generators G :=
  if rows.isEmpty then ([], s)
  else
    let u := createUniformSamples seeded rows.length k s
    let q := exponentialSamples seeded rows.length (k * vocab) u.2
    (rows.zipIdx.map fun (row, idx) => row.sampled k vocab (u.1 idx) (q.1 idx), q.2)

/-- `_verify_tokens`: the accepted token ids of every row, in the order of the batch. -/
def verifyTokens (k vocab : ℕ) (rows : List VerifyRow) (s : Generators G) :
    Except PyError (List (List ℤ) × Generators G) := do
  let seeded ← if s.keys = [] then .ok [] else seededSeqs s.keys 0 rows
  let r := rejectionSample seeded k vocab ((specIndices rows).filterMap (rows[·]?)) s
  let nonSpec := (nonSpecIndices rows).filterMap fun i => rows[i]?.map (·.unproposed k)
  let originalIndices := specIndices rows ++ nonSpecIndices rows
  return ((List.range rows.length).map fun i =>
    (r.1 ++ nonSpec).getD (originalIndices.idxOf i) [], r.2)

end

variable {rows : List VerifyRow}

-- Which generators are asked

theorem mem_specIndices {i : ℕ} :
    i ∈ specIndices rows ↔ ∃ row, rows[i]? = some row ∧ row.proposalLen ≠ 0 := by
  simp [specIndices, List.mem_zipIdx_iff_getElem?]

variable {seeded : List (ℕ × RequestId)} {keys : List RequestId} {idx : ℕ}

theorem seededSeqs_before (made : seededSeqs keys idx rows = .ok seeded) {i : ℕ}
    (before : i < idx) : seeded.lookup i = none := by
  induction rows generalizing idx seeded with
  | nil =>
    cases made
    rfl
  | cons row rows ih =>
    unfold seededSeqs at made
    split at made
    · exact ih made (by omega)
    · split at made
      · cases rest : seededSeqs keys (idx + 1) rows with
        | error e => simp [rest, Except.map] at made
        | ok others =>
          simp only [rest, Except.map, Except.ok.injEq] at made
          have different : (i == idx) = false := by simpa using before.ne
          rw [← made, List.lookup_cons, different]
          exact ih rest (by omega)
      · cases made

/-- The generator under key `idx + j` is that of row `j`. -/
theorem seededSeqs_lookup (made : seededSeqs keys idx rows = .ok seeded) (j : ℕ) :
    seeded.lookup (idx + j) = rows[j]?.bind VerifyRow.own := by
  induction rows generalizing idx seeded j with
  | nil =>
    cases made
    rfl
  | cons row rows ih =>
    unfold seededSeqs at made
    split at made
    · next unseeded =>
      cases j with
      | zero =>
        rw [Nat.add_zero, seededSeqs_before made (Nat.lt_succ_self idx)]
        simp [VerifyRow.own, unseeded]
      | succ j =>
        have next := ih made j
        rw [Nat.add_right_comm, Nat.add_assoc] at next
        exact next
    · next seed has =>
      split at made
      · cases rest : seededSeqs keys (idx + 1) rows with
        | error e => simp [rest, Except.map] at made
        | ok others =>
          simp only [rest, Except.map, Except.ok.injEq] at made
          cases j with
          | zero => simp [← made, VerifyRow.own, has]
          | succ j =>
            have different : (idx + (j + 1) == idx) = false := by simp
            rw [← made, List.lookup_cons, different]
            have next := ih rest j
            rw [Nat.add_right_comm, Nat.add_assoc] at next
            simpa using next
      · cases made

theorem seededSeqs_ok (known : ∀ row ∈ rows, row.seed.isSome → row.requestId ∈ keys) (idx : ℕ) :
    ∃ seeded, seededSeqs keys idx rows = .ok seeded := by
  induction rows generalizing idx with
  | nil => exact ⟨[], rfl⟩
  | cons row rows ih =>
    obtain ⟨seeded, made⟩ := ih (fun other member => known other (List.mem_cons_of_mem row member))
      (idx + 1)
    unfold seededSeqs
    split
    · exact ⟨seeded, made⟩
    · next seed has =>
      rw [if_pos (known row List.mem_cons_self (by simp [has])), made]
      exact ⟨_, rfl⟩

variable {id : RequestId}

namespace Generators

variable {G : Type} (s : Generators G) (sample : G → List ℚ × G)

theorem ask_draws (source : Option RequestId) (rows : List ℕ) :
    (s.ask sample source rows).2.draws = s.draws ++ rows.map ({ row := ·, source }) := by
  cases source <;> rfl

theorem ask_object_own (id : RequestId) (rows : List ℕ) :
    (s.ask sample (some id) rows).2.object id = (sample (s.object id)).2 := by
  simp [ask]

theorem ask_object_other {source : Option RequestId} (rows : List ℕ)
    (other : source ≠ some id) : (s.ask sample source rows).2.object id = s.object id := by
  cases source with
  | none => rfl
  | some asked =>
    have different : id ≠ asked := fun same => other (by rw [same])
    simp [ask, different]

end Generators

variable {indices : List ℕ}

section
variable {G : Type} (sample : G → List ℚ × G) (seeded : List (ℕ × RequestId))

theorem fillRows_draws (indices : List ℕ) (rows : ℕ → List ℚ) (s : Generators G) :
    (fillRows sample seeded indices rows s).2.draws =
      s.draws ++ indices.map fun idx => { row := idx, source := seeded.lookup idx } := by
  induction indices generalizing rows s with
  | nil => simp [fillRows]
  | cons idx rest ih =>
    rw [fillRows, ih, Generators.ask_draws, List.append_assoc]
    rfl

theorem fillRows_row_other (rows : ℕ → List ℚ) (s : Generators G)
    (outside : idx ∉ indices) : (fillRows sample seeded indices rows s).1 idx = rows idx := by
  induction indices generalizing rows s with
  | nil => rfl
  | cons first rest ih =>
    rw [List.mem_cons, not_or] at outside
    rw [fillRows, ih _ _ outside.2, Function.update_of_ne outside.1]

theorem fillRows_object_other (rows : ℕ → List ℚ)
    (s : Generators G) (other : ∀ idx ∈ indices, seeded.lookup idx ≠ some id) :
    (fillRows sample seeded indices rows s).2.object id = s.object id := by
  induction indices generalizing rows s with
  | nil => rfl
  | cons first rest ih =>
    rw [fillRows, ih _ _ fun idx member => other idx (List.mem_cons_of_mem first member),
      Generators.ask_object_other _ _ _ (other first List.mem_cons_self)]

theorem fillRows_own (rows : ℕ → List ℚ)
    (s : Generators G) (once : indices.Nodup) (inside : idx ∈ indices)
    (its : seeded.lookup idx = some id)
    (only : ∀ other ∈ indices, seeded.lookup other = some id → other = idx) :
    (fillRows sample seeded indices rows s).1 idx = (sample (s.object id)).1 ∧
      (fillRows sample seeded indices rows s).2.object id = (sample (s.object id)).2 := by
  induction indices generalizing rows s with
  | nil => cases inside
  | cons first rest ih =>
    obtain ⟨notLater, once⟩ := List.nodup_cons.mp once
    rw [fillRows]
    rcases List.mem_cons.mp inside with same | later
    · subst same
      have others : ∀ other ∈ rest, seeded.lookup other ≠ some id := by
        intro other member shared
        have same := only other (List.mem_cons_of_mem idx member) shared
        exact notLater (same ▸ member)
      rw [fillRows_row_other _ _ _ _ notLater, fillRows_object_other _ _ _ _ others, its]
      exact ⟨by simp [Generators.ask], Generators.ask_object_own _ _ _ _⟩
    · have different : seeded.lookup first ≠ some id := by
        intro shared
        have same := only first List.mem_cons_self shared
        exact notLater (same ▸ later)
      have kept := Generators.ask_object_other s sample [first] different
      rw [← kept]
      exact ih _ _ once later fun other member => only other (List.mem_cons_of_mem first member)

end

-- The sampler's calls

section
variable {G : Type} [Torch G] (seeded : List (ℕ × RequestId)) (batchSize k : ℕ) (s : Generators G)

theorem lookup_of_isEmpty {seeded : List (ℕ × RequestId)} (none : seeded.isEmpty) (idx : ℕ) :
    seeded.lookup idx = Option.none := by
  rw [List.isEmpty_iff.mp none, List.lookup_nil]

theorem mem_drawn {source : ℕ → Option RequestId} {d : Draw} :
    d ∈ indices.map (fun idx => { row := idx, source := source idx }) ↔
      d.row ∈ indices ∧ d.source = source d.row := by
  obtain ⟨row, from_⟩ := d
  simp only [List.mem_map, Draw.mk.injEq]
  constructor
  · rintro ⟨idx, member, rfl, rfl⟩
    exact ⟨member, rfl⟩
  · rintro ⟨member, same⟩
    exact ⟨row, member, rfl, same.symm⟩

theorem createUniformSamples_draws (d : Draw) :
    d ∈ (createUniformSamples seeded batchSize k s).2.draws ↔
      d ∈ s.draws ∨ d.row < batchSize ∧ d.source = seeded.lookup d.row := by
  unfold createUniformSamples
  split
  · next empty =>
    rw [Generators.ask_draws, List.mem_append, mem_drawn, List.mem_range, lookup_of_isEmpty empty]
  · dsimp only
    split
    · next all =>
      have every : ∀ idx < batchSize, (seeded.lookup idx).isSome := by
        simpa [List.filter_eq_nil_iff, ← Option.isSome_iff_ne_none] using all
      rw [fillRows_draws, List.mem_append, mem_drawn, List.mem_filter, List.mem_range]
      have added := every d.row
      tauto
    · rw [Generators.ask_draws, fillRows_draws, List.mem_append, List.mem_append, mem_drawn,
        mem_drawn, List.mem_filter, List.mem_filter, List.mem_range]
      cases its : seeded.lookup d.row <;> simp

theorem exponentialSamples_draws (d : Draw) :
    d ∈ (exponentialSamples seeded batchSize k s).2.draws ↔
      d ∈ s.draws ∨ d.row < batchSize ∧ d.source = seeded.lookup d.row := by
  unfold exponentialSamples
  split
  · next empty =>
    rw [Generators.ask_draws, List.mem_append, mem_drawn, List.mem_range, lookup_of_isEmpty empty]
  · rw [fillRows_draws, List.mem_append, mem_drawn, List.mem_range]

variable {seeded batchSize} {idx : ℕ} {id : RequestId}

theorem createUniformSamples_own (inside : idx < batchSize) (its : seeded.lookup idx = some id)
    (only : ∀ other < batchSize, seeded.lookup other = some id → other = idx) :
    (createUniformSamples seeded batchSize k s).1 idx = (Torch.rand k (s.object id)).1 ∧
      (createUniformSamples seeded batchSize k s).2.object id = (Torch.rand k (s.object id)).2 := by
  have once : ((List.range batchSize).filter fun idx => (seeded.lookup idx).isSome).Nodup :=
    List.nodup_range.filter _
  have own := fillRows_own (Torch.rand k) seeded (fun _ => []) s once (by simp [inside, its]) its
    (fun other member => only other (by simpa using (List.mem_filter.mp member).1))
  unfold createUniformSamples
  rw [if_neg fun empty => by simp [lookup_of_isEmpty empty] at its]
  dsimp only
  split
  · exact own
  · have seededRow : idx ∉ (List.range batchSize).filter fun idx => (seeded.lookup idx).isNone := by
      simp [its]
    simp only [if_neg seededRow]
    exact own

theorem exponentialSamples_own (inside : idx < batchSize) (its : seeded.lookup idx = some id)
    (only : ∀ other < batchSize, seeded.lookup other = some id → other = idx) :
    (exponentialSamples seeded batchSize k s).1 idx = (Torch.exponential k (s.object id)).1 := by
  unfold exponentialSamples
  rw [if_neg fun empty => by simp [lookup_of_isEmpty empty] at its]
  exact (fillRows_own (Torch.exponential k) seeded (fun _ => []) s List.nodup_range
    (List.mem_range.mpr inside) its fun other member => only other (List.mem_range.mp member)).1

end

-- One batch

section
variable {rows : List VerifyRow}

theorem specRows_map_some :
    ((specIndices rows).filterMap (rows[·]?)).map some = (specIndices rows).map (rows[·]?) := by
  have inside : ∀ i ∈ specIndices rows, ∃ row, rows[i]? = some row := by
    intro i member
    obtain ⟨row, at_i, _⟩ := mem_specIndices.mp member
    exact ⟨row, at_i⟩
  generalize specIndices rows = indices at inside
  induction indices with
  | nil => rfl
  | cons i rest ih =>
    obtain ⟨row, at_i⟩ := inside i List.mem_cons_self
    rw [List.filterMap_cons_some at_i, List.map_cons, List.map_cons, at_i,
      ih fun other member => inside other (List.mem_cons_of_mem i member)]

theorem specRows_length :
    ((specIndices rows).filterMap (rows[·]?)).length = (specIndices rows).length := by
  simpa using congrArg List.length (@specRows_map_some rows)

theorem specRows_get (j : ℕ) :
    ((specIndices rows).filterMap (rows[·]?))[j]? = (specIndices rows)[j]?.bind (rows[·]?) := by
  have same := congrArg (fun l => l[j]?) (@specRows_map_some rows)
  simp only [List.getElem?_map] at same
  cases at_j : (specIndices rows)[j]? with
  | none => simpa [at_j] using same
  | some i =>
    rw [at_j] at same
    cases sub : ((specIndices rows).filterMap (rows[·]?))[j]? with
    | none => simp [sub] at same
    | some row => simpa [sub] using same

/-- The generator that a row of the sub-batch is to be sampled with: that of its request. -/
def subBatchOwn (rows : List VerifyRow) (j : ℕ) : Option RequestId :=
  ((specIndices rows)[j]?.bind (rows[·]?)).bind VerifyRow.own

/-- Every row is sampled with its own request's generator, or with the default one if it has no seed. -/
def OwnDraws (rows : List VerifyRow) (draws : List Draw) : Prop :=
  ∀ d ∈ draws, d.source = subBatchOwn rows d.row

/-- A row of the sub-batch has the number it has in the whole batch if either of the two rows of that
number has a seed. -/
def Aligned (rows : List VerifyRow) : Prop :=
  ∀ j i : ℕ, (specIndices rows)[j]? = some i →
    ((rows[i]?.bind VerifyRow.own).isSome ∨ (rows[j]?.bind VerifyRow.own).isSome) → i = j

theorem own_inj (ids : (rows.map VerifyRow.requestId).Nodup) {i j : ℕ}
    (at_i : rows[i]?.bind VerifyRow.own = some id) (at_j : rows[j]?.bind VerifyRow.own = some id) :
    i = j := by
  have named (k : ℕ) (own : rows[k]?.bind VerifyRow.own = some id) :
      (rows.map VerifyRow.requestId)[k]? = some id := by
    obtain ⟨row, at_k, own⟩ := Option.bind_eq_some_iff.mp own
    obtain ⟨seed, _, same⟩ := Option.map_eq_some_iff.mp own
    rw [List.getElem?_map, at_k, ← same]
    rfl
  have first := named i at_i
  have second := named j at_j
  exact (List.getElem?_inj (List.getElem?_eq_some_iff.mp first).1 ids).mp (first.trans second.symm)

theorem aligned_iff (ids : (rows.map VerifyRow.requestId).Nodup) :
    Aligned rows ↔ ∀ j < (specIndices rows).length,
      rows[j]?.bind VerifyRow.own = subBatchOwn rows j := by
  constructor
  · intro aligned j inside
    obtain ⟨i, at_j⟩ : ∃ i, (specIndices rows)[j]? = some i :=
      ⟨_, List.getElem?_eq_getElem inside⟩
    have same := aligned j i at_j
    simp only [subBatchOwn, at_j, Option.bind_some]
    cases own : rows[i]?.bind VerifyRow.own with
    | some id =>
      rw [← same (.inl (by simp [own]))]
      exact own
    | none =>
      cases other : rows[j]?.bind VerifyRow.own with
      | none => rfl
      | some id =>
        have equal := same (.inr (by simp [other]))
        rw [equal, other] at own
        cases own
  · intro right j i at_j seeded
    have equal := right j (List.getElem?_eq_some_iff.mp at_j).1
    simp only [subBatchOwn, at_j, Option.bind_some] at equal
    rw [equal, or_self] at seeded
    obtain ⟨id, own⟩ := Option.isSome_iff_exists.mp seeded
    exact own_inj ids own (equal.trans own)

variable {G : Type} [Torch G] {k vocab : ℕ} {s : Generators G}

theorem rejectionSample_draws (seeded : List (ℕ × RequestId)) (d : Draw) :
    d ∈ (rejectionSample seeded k vocab rows s).2.draws ↔
      d ∈ s.draws ∨ d.row < rows.length ∧ d.source = seeded.lookup d.row := by
  unfold rejectionSample
  split
  · next empty => simp [List.isEmpty_iff.mp empty]
  · dsimp only
    rw [exponentialSamples_draws, createUniformSamples_draws]
    tauto

/-- What `row` is sampled as when its generator, in state `g`, is asked for nothing else. -/
def soloSampled (row : VerifyRow) (k vocab : ℕ) (g : G) : List ℤ :=
  let u := Torch.rand k g
  row.sampled k vocab u.1 (Torch.exponential (k * vocab) u.2).1

theorem rejectionSample_own (k vocab : ℕ) (s : Generators G) {j : ℕ} {row : VerifyRow} (at_j : rows[j]? = some row) (its : seeded.lookup j = some id)
    (only : ∀ other < rows.length, seeded.lookup other = some id → other = j) :
    (rejectionSample seeded k vocab rows s).1[j]? = some (soloSampled row k vocab (s.object id)) := by
  obtain ⟨inside, _⟩ := List.getElem?_eq_some_iff.mp at_j
  have some_ : ¬rows.isEmpty := by
    intro empty
    rw [List.isEmpty_iff.mp empty] at inside
    exact absurd inside (Nat.not_lt_zero j)
  have uniform := createUniformSamples_own k s inside its only
  have exponential := exponentialSamples_own (k * vocab)
    (createUniformSamples seeded rows.length k s).2 inside its only
  unfold rejectionSample
  rw [if_neg some_]
  simp only [List.getElem?_map, List.getElem?_zipIdx, at_j, Option.map_some, Nat.zero_add]
  rw [uniform.1, exponential, uniform.2]
  rfl

/-- The keys of `seeded_seqs` are rows of the whole batch. -/
theorem verifyTokens_run (k vocab : ℕ)
    (known : ∀ row ∈ rows, row.seed.isSome → row.requestId ∈ s.keys) :
    ∃ seeded : List (ℕ × RequestId), (∀ j, seeded.lookup j = rows[j]?.bind VerifyRow.own) ∧
      verifyTokens k vocab rows s = .ok
        (let r := rejectionSample seeded k vocab ((specIndices rows).filterMap (rows[·]?)) s
        let nonSpec := (nonSpecIndices rows).filterMap fun i => rows[i]?.map (·.unproposed k)
        ((List.range rows.length).map fun i =>
          (r.1 ++ nonSpec).getD ((specIndices rows ++ nonSpecIndices rows).idxOf i) [], r.2)) := by
  unfold verifyTokens
  by_cases keyless : s.keys = []
  · refine ⟨[], ?_, by rw [if_pos keyless]; rfl⟩
    intro j
    cases at_j : rows[j]? with
    | none => rfl
    | some row =>
      cases seed : row.seed with
      | none => simp [VerifyRow.own, seed]
      | some n =>
        have listed := known row (List.mem_of_getElem? at_j) (by simp [seed])
        rw [keyless] at listed
        cases listed
  · obtain ⟨seeded, made⟩ := seededSeqs_ok known 0
    refine ⟨seeded, ?_, by rw [if_neg keyless, made]; rfl⟩
    intro j
    have at_j := seededSeqs_lookup made j
    rwa [Nat.zero_add] at at_j

/-- The generators asked are the requests' own exactly if the sub-batch is aligned with the batch, and
then a seeded request is sampled as if it were alone. -/
theorem verifyTokens_seeded (k vocab : ℕ) (ids : (rows.map VerifyRow.requestId).Nodup)
    (known : ∀ row ∈ rows, row.seed.isSome → row.requestId ∈ s.keys) (fresh : s.draws = []) :
    ∃ tokens s', verifyTokens k vocab rows s = .ok (tokens, s') ∧
      (OwnDraws rows s'.draws ↔ Aligned rows) ∧
      (Aligned rows → ∀ (i : ℕ) (row : VerifyRow) (id : RequestId), rows[i]? = some row →
        row.own = some id → row.proposalLen ≠ 0 →
          tokens[i]? = some (soloSampled row k vocab (s.object id))) := by
  obtain ⟨seeded, key, run⟩ := verifyTokens_run k vocab known
  refine ⟨_, _, run, ?_, ?_⟩
  · rw [aligned_iff ids]
    simp only [OwnDraws, rejectionSample_draws, fresh, List.not_mem_nil, false_or, key,
      specRows_length]
    constructor
    · intro own j inside
      exact own { row := j, source := rows[j]?.bind VerifyRow.own } ⟨inside, rfl⟩
    · rintro right d ⟨inside, source⟩
      rw [source, right d.row inside]
  · intro aligned i row id at_i own proposed
    have member : i ∈ specIndices rows := mem_specIndices.mpr ⟨row, at_i, proposed⟩
    have its : rows[i]?.bind VerifyRow.own = some id := by rw [at_i]; exact own
    have at_j : (specIndices rows)[(specIndices rows).idxOf i]? = some i :=
      List.getElem?_idxOf member
    have same := aligned _ i at_j (.inl (by simp [its]))
    rw [← same] at at_j
    have only : ∀ other < ((specIndices rows).filterMap (rows[·]?)).length,
        seeded.lookup other = some id → other = i := by
      intro other _ shared
      exact own_inj ids ((key other).symm.trans shared) its
    have row_i : ((specIndices rows).filterMap (rows[·]?))[i]? = some row := by
      rw [specRows_get, at_j]
      exact at_i
    have sampled := rejectionSample_own k vocab s row_i ((key i).trans its) only
    obtain ⟨within, value⟩ := List.getElem?_eq_some_iff.mp sampled
    rw [List.getElem?_map, List.getElem?_range (List.getElem?_eq_some_iff.mp at_i).1,
      Option.map_some, List.idxOf_append_of_mem member, ← same, List.getD_eq_getElem?_getD,
      List.getElem?_append_left within, sampled]
    rfl

end

-- A prefill chunk before a seeded request

/-- A generator that counts its calls. -/
local instance countingTorch : Torch ℕ where
  rand n g := (List.replicate n 0, g + 1)
  exponential n g := (List.replicate n 1, g + 1)

def prefillRow : VerifyRow where
  requestId := 0
  seed := none
  proposalLen := 0
  probs := [[1 / 2, 1 / 2], [1 / 2, 1 / 2]]
  tokenIds := [1, -1]
  proposalProbs := [[0, 0]]
  proposalTokenIds := [0]

def seededRow : VerifyRow where
  requestId := 1
  seed := some 7
  proposalLen := 1
  probs := [[1 / 2, 1 / 2], [1 / 2, 1 / 2]]
  tokenIds := [0, 1]
  proposalProbs := [[1 / 2, 1 / 2]]
  proposalTokenIds := [0]

def oneSeeded : Generators ℕ where
  default := 0
  keys := [1]
  object _ := 0

/-- The seeded request's samples come from the default generator. -/
theorem seed_unused :
    ∃ tokens s', verifyTokens 1 2 [prefillRow, seededRow] oneSeeded = .ok (tokens, s') ∧
      s'.draws = [⟨0, none⟩, ⟨0, none⟩] ∧ ¬OwnDraws [prefillRow, seededRow] s'.draws :=
  ⟨_, _, rfl, rfl, fun own => absurd (own ⟨0, none⟩ List.mem_cons_self) (by decide)⟩

theorem verifyTokens_seededFirst :
    ∃ tokens s', verifyTokens 1 2 [seededRow, prefillRow] oneSeeded = .ok (tokens, s') ∧
      (OwnDraws [seededRow, prefillRow] s'.draws ↔ Aligned [seededRow, prefillRow]) ∧
      (Aligned [seededRow, prefillRow] → ∀ (i : ℕ) (row : VerifyRow) (id : RequestId),
        [seededRow, prefillRow][i]? = some row → row.own = some id → row.proposalLen ≠ 0 →
          tokens[i]? = some (soloSampled row 1 2 (oneSeeded.object id))) :=
  verifyTokens_seeded 1 2 (by decide) (by decide) rfl

end Vllm.SpecDecode
