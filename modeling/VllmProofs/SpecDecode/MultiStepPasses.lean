import VllmProofs.SpecDecode.MultiStepRuns

/-!
Calls of `sampler_output`. What the model is given and what is returned is as the method says; but the copies refer to
the list of newly appended tokens of the object they were copied from, so the tokens of the draft model are in the delta
that the scheduler sends next.
-/

namespace Vllm.SpecDecode.MultiStep
open Doubled Exec

/-- Passes in each of which every copy is one token behind its group, and what was kept of their outputs. -/
structure Ran (bonus : Finset SeqId) (xs : List History) (passes : List Pass) (kept : List SamplerOutput) : Prop where
  given : ∀ p pass, passes[p]? = some pass →
    List.Forall₂ History.Shown (flat (withCopies bonus ((kept.take p).foldl appendSampled xs))) pass.given
  filtered : List.Forall₂
    (fun pass output => Filtered (xs.map fun x => decide (x.seqId ∈ bonus)) pass.output output) passes kept

/-- The model samples a token of each group, whenever each has one sequence. -/
def SamplesAll (executeModel : ℕ → List GroupView → List SamplerOutput) : Prop :=
  ∀ pass given, (∀ group ∈ given, group.seqs.length = 1) →
    ∃ output, executeModel pass given = [output] ∧ SamplesEach given output

variable {executeModel : ℕ → List GroupView → List SamplerOutput} {base : Heap} {bonus : Finset SeqId}
  {xs ys : List History} {ref : SeqDataRef} {pairs : List (Option Row × Row)}

theorem Within.trans {zs : List History} (first : Within xs ys) (second : Within ys zs) : Within xs zs := by
  intro x member
  obtain ⟨y, found, here⟩ := first x member
  obtain ⟨z, later, there⟩ := second y found
  exact ⟨z, later, List.Subset.trans here there⟩

theorem appendAll_append (base : Heap) (first second : List (ℕ × TokenId)) :
    base.appendAll (first ++ second) = (base.appendAll first).appendAll second := by
  simp [Heap.appendAll]

theorem appendAll_appended (base : Heap) (news : List (ℕ × TokenId)) :
    (base.appendAll news).seqData = base.seqData ∧ (base.appendAll news).arrays = base.arrays ∧
      (base.appendAll news).caches = base.caches ∧ (base.appendAll news).appended.length = base.appended.length := by
  induction news generalizing base with
  | nil => exact ⟨rfl, rfl, rfl, rfl⟩
  | cons new news ih =>
    obtain ⟨seqData, arrays, caches, appended⟩ := ih (base.appendNew new.1 new.2)
    exact ⟨seqData, arrays, caches, appended.trans (List.length_modify _ _ _)⟩

theorem Ran.cons {pass : Pass} {output : SamplerOutput} {passes : List Pass} {kept : List SamplerOutput}
    (shown : List.Forall₂ History.Shown (flat (withCopies bonus xs)) pass.given)
    (filtered : Filtered (xs.map fun x => decide (x.seqId ∈ bonus)) pass.output output)
    (same : (appendSampled xs output).map (fun x => decide (x.seqId ∈ bonus)) =
      xs.map fun x => decide (x.seqId ∈ bonus))
    (later : Ran bonus (appendSampled xs output) passes kept) : Ran bonus xs (pass :: passes) (output :: kept) where
  given := by
    intro p other read
    cases p with
    | zero =>
      cases read
      exact shown
    | succ p => exact later.given p other read
  filtered := .cons filtered (same ▸ later.filtered)

/-- The run, from any pass on. -/
theorem passes_run (model : SamplesAll executeModel) (n pass : ℕ) (nonempty : pairs ≠ [])
    (lags : List.Forall₂ (Lags bonus) xs pairs) (size : base.seqData.length = ref) :
    ∃ ran kept later news,
      passes executeModel (places 0 pairs) pass n (groupsFrom ref (flat pairs)) (heapOf base (flat pairs)) =
        .ok (ran, groupsFrom ref (flat later)) (heapOf (base.appendAll news) (flat later)) ∧
      ran.length = n ∧ ran.mapM (fun pass => filterModelOutput (places 0 pairs) pass.output) = some kept ∧
      Ran bonus xs ran kept ∧ List.Forall₂ (Lags bonus) (kept.foldl appendSampled xs) later ∧
      Within xs (kept.foldl appendSampled xs) ∧
      (∀ new ∈ news, ∃ x ∈ kept.foldl appendSampled xs, new.2 ∈ x.outputTokenIds) ∧
      (n = 0 → news = []) ∧
      (0 < n → ∀ pair ∈ pairs, ∃ tokenId, (pair.2.cell.newAppendedTokens, tokenId) ∈ news) := by
  induction n generalizing base xs pairs pass with
  | zero =>
    exact ⟨[], [], pairs, [], rfl, rfl, rfl, ⟨fun p pass read => by simp at read, .nil⟩, lags,
      fun x member => ⟨x, member, fun _ found => found⟩, by simp, fun _ => rfl, by simp⟩
  | succ n ih =>
    have shows := map_groupView base [] (flat pairs)
    rw [List.length_nil, Nat.add_zero, size, List.nil_append] at shows
    obtain ⟨output, called, each⟩ := model pass ((flat pairs).map Row.view) (by
      intro group member
      obtain ⟨row, _, rfl⟩ := List.mem_map.mp member
      rfl)
    obtain ⟨first, middle, news₁, kept₁, filtered, appended, lags₁, shape, within₁, tokens₁, reached⟩ :=
      pass_lags nonempty lags each size
    have size₁ : (base.appendAll news₁).seqData.length = ref := by
      rw [(appendAll_appended base news₁).1, size]
    have nonempty₁ : middle ≠ [] := by
      intro none
      rw [none, List.map_nil, eq_comm, List.map_eq_nil_iff] at shape
      exact nonempty shape
    obtain ⟨ran, kept, later, news₂, run, length, filteredAll, here, lags₂, within₂, tokens₂, _, _⟩ :=
      ih (pass + 1) nonempty₁ lags₁ size₁
    rw [places_congr shape] at run filteredAll
    have flags : (appendSampled xs first).map (fun x => decide (x.seqId ∈ bonus)) =
        xs.map fun x => decide (x.seqId ∈ bonus) := by
      rw [← isSome_of_lags lags₁, ← isSome_of_lags lags, shape]
    refine ⟨⟨(flat pairs).map Row.view, output⟩ :: ran, first :: kept, later, news₁ ++ news₂, ?_, ?_, ?_, ?_, lags₂,
      within₁.trans within₂, ?_, fun none => absurd none (Nat.succ_ne_zero n), ?_⟩
    · rw [passes, get_bind, shows, called, appendAll_append]
      dsimp only
      rw [bind_of_ok appended, bind_of_ok run]
      rfl
    · rw [List.length_cons, length]
    · rw [List.mapM_cons, kept₁, filteredAll]
      rfl
    · exact .cons (shown_of_lags lags) filtered flags here
    · intro new member
      obtain inFirst | inLater := List.mem_append.mp member
      · obtain ⟨x, found, token⟩ := tokens₁ new inFirst
        obtain ⟨y, there, subset⟩ := within₂ x found
        exact ⟨y, there, subset token⟩
      · exact tokens₂ new inLater
    · intro _ pair member
      obtain ⟨tokenId, found⟩ := reached pair member
      exact ⟨tokenId, List.mem_append_left _ found⟩

/-! ### A call -/

theorem getD_appendAll {base : Heap} {i : ℕ} (inside : i < base.appended.length) (news : List (ℕ × TokenId)) :
    (base.appendAll news).appended.getD i [] =
      base.appended.getD i [] ++ (news.filter (·.1 = i)).map Prod.snd := by
  induction news generalizing base with
  | nil => simp [Heap.appendAll]
  | cons new news ih =>
    have kept : i < (base.appendNew new.1 new.2).appended.length := by
      rw [Heap.appendNew, List.length_modify]
      exact inside
    have step : (base.appendAll (new :: news)).appended = ((base.appendNew new.1 new.2).appendAll news).appended := rfl
    rw [step, ih kept]
    unfold Heap.appendNew
    by_cases here : new.1 = i
    · simp [here, List.getD_eq_getElem?_getD, inside]
    · simp [here, List.getD_eq_getElem?_getD]

/-- An object that was there before: only its list of newly appended tokens may be longer. -/
theorem old_object (valid : base.Valid ref) (news : List (ℕ × TokenId)) (rows : List Row) :
    (heapOf (base.appendAll news) rows).view ref = base.view ref ∧
      (heapOf (base.appendAll news) rows).newAppendedTokens ref =
        base.newAppendedTokens ref ++ (news.filter (·.1 = (base.obj ref).newAppendedTokens)).map Prod.snd := by
  obtain ⟨seqData, arrays, caches, appended⟩ := appendAll_appended base news
  have obj : (base.appendAll news).obj ref = base.obj ref := by rw [Heap.obj, seqData, Heap.obj]
  have still : (base.appendAll news).Valid ref := by
    refine ⟨?_, ?_, ?_, ?_⟩
    · rw [seqData]
      exact valid.seqData
    · rw [obj, arrays]
      exact valid.array
    · rw [obj, caches]
      exact valid.cache
    · rw [obj, appended]
      exact valid.appended
  constructor
  · unfold heapOf
    rw [view_extend_old still]
    unfold Heap.view Heap.outputTokenIds Heap.cachedAllTokenIds
    rw [obj, arrays, caches]
  · unfold heapOf
    rw [newAppendedTokens_extend_old still]
    unfold Heap.newAppendedTokens
    rw [obj, getD_appendAll valid.appended]

theorem raiseIfUnsupported_single (groups : List SingleGroup) (h : Heap) :
    raiseIfUnsupported { seqGroupMetadataList := groups.map SingleGroup.group } h = .ok () h := by
  have single : (groups.map SingleGroup.group).any (fun group => group.seqData.length ≠ 1) = false := by
    rw [List.any_map, List.any_eq_false]
    intro g _
    simp [SingleGroup.group]
  unfold raiseIfUnsupported
  dsimp only
  rw [single]
  rfl

theorem samplerOutput_run (model : SamplesAll executeModel) {groups : List SingleGroup} (nonempty : groups ≠ [])
    (ready : ∀ g ∈ groups, g.Ready base bonus) (sampleLen : ℕ) :
    ∃ sampled later news,
      samplerOutput executeModel { seqGroupMetadataList := groups.map SingleGroup.group } sampleLen bonus base =
        .ok sampled (heapOf (base.appendAll news) (flat later)) ∧
      sampled.groups = groupsFrom base.seqData.length (flat later) ∧ sampled.passes.length = sampleLen ∧
      Ran bonus (groups.map (·.history base)) sampled.passes sampled.outputs ∧
      List.Forall₂ (Lags bonus) (sampled.outputs.foldl appendSampled (groups.map (·.history base))) later ∧
      (∀ new ∈ news, ∃ x ∈ sampled.outputs.foldl appendSampled (groups.map (·.history base)),
        new.2 ∈ x.outputTokenIds) ∧
      (sampleLen = 0 → news = []) ∧
      (0 < sampleLen → ∀ g ∈ groups, ∃ tokenId, ((base.obj g.ref).newAppendedTokens, tokenId) ∈ news) := by
  have expanded := expandFrom_heapOf ready [] []
  rw [List.nil_append, List.nil_append, List.length_nil] at expanded
  have lags : List.Forall₂ (Lags bonus) (groups.map (·.history base)) (groups.map (·.expanded base bonus)) := by
    rw [List.forall₂_map_left_iff, List.forall₂_map_right_iff, List.forall₂_same]
    exact fun g member => SingleGroup.lags_expanded (ready g member)
  have some_pairs : groups.map (·.expanded base bonus) ≠ [] := by simpa using nonempty
  obtain ⟨ran, kept, later, news, run, length, filtered, right, lagging, _, tokens, nothing, reached⟩ :=
    @passes_run _ base _ _ _ _ model sampleLen 0 some_pairs lags rfl
  refine ⟨⟨kept, ran, groupsFrom base.seqData.length (flat later)⟩, later, news, ?_, rfl, length, right, lagging,
    tokens, nothing, ?_⟩
  · have start : heapOf base [] = base := extend_nil base
    rw [start] at expanded
    unfold samplerOutput
    refine (bind_of_ok (raiseIfUnsupported_single groups base)).trans ((bind_of_ok expanded).trans ?_)
    refine (bind_of_ok run).trans ?_
    dsimp only
    rw [filtered]
    rfl
  · intro some_passes g member
    exact reached some_passes _ (List.mem_map_of_mem member)

/-- In every pass the copy in front of a group is that group's tokens without the last, and what is kept are the rows of
the groups. The tokens of a group are those it had, and those sampled for it. -/
theorem samplerOutput_lagging (model : SamplesAll executeModel) {groups : List SingleGroup} (nonempty : groups ≠ [])
    (ready : ∀ g ∈ groups, g.Ready base bonus) (sampleLen : ℕ) :
    ∃ sampled heap final,
      samplerOutput executeModel { seqGroupMetadataList := groups.map SingleGroup.group } sampleLen bonus base =
        .ok sampled heap ∧
      final = sampled.outputs.foldl appendSampled (groups.map (·.history base)) ∧
      sampled.passes.length = sampleLen ∧
      Ran bonus (groups.map (·.history base)) sampled.passes sampled.outputs ∧
      List.Forall₂ History.Shown (flat (withCopies bonus final)) (sampled.groups.map heap.groupView) ∧
      ∀ ref, base.Valid ref → heap.view ref = base.view ref ∧
        ∃ more, heap.newAppendedTokens ref = base.newAppendedTokens ref ++ more ∧
          ∀ tokenId ∈ more, ∃ x ∈ final, tokenId ∈ x.outputTokenIds := by
  obtain ⟨sampled, later, news, call, last, length, right, lagging, tokens, _, _⟩ :=
    samplerOutput_run model nonempty ready sampleLen
  refine ⟨sampled, _, _, call, rfl, length, right, ?_, ?_⟩
  · have shows := map_groupView (base.appendAll news) [] (flat later)
    rw [List.length_nil, Nat.add_zero, List.nil_append, (appendAll_appended base news).1] at shows
    rw [last, shows]
    exact shown_of_lags lagging
  · intro ref valid
    obtain ⟨view, more⟩ := old_object valid news (flat later)
    refine ⟨view, _, more, ?_⟩
    intro tokenId member
    obtain ⟨new, found, rfl⟩ := List.mem_map.mp member
    exact tokens new (List.mem_of_mem_filter found)

/-- A draft model that adds ten to the last token. -/
def tenMore (_ : ℕ) (given : List GroupView) : List SamplerOutput :=
  let next (seq : SeqView) : TokenId := seq.cachedAllTokenIds.getLastD 0 + 10
  [{ outputs := given.map fun group => ⟨group.seqs.map fun entry =>
      { parentSeqId := entry.1, outputToken := next entry.2, logprobs := [(next entry.2, -1)] }⟩
     sampledTokenIds := some (given.map fun group => group.seqs.map fun entry => next entry.2) }]

theorem tenMore_samplesAll : SamplesAll tenMore := by
  intro pass given single
  refine ⟨_, rfl, ?_, fun _ absent => absurd absent (Option.not_mem_none _),
    fun _ absent => absurd absent (Option.not_mem_none _), ?_⟩
  · dsimp only
    rw [List.forall₂_map_right_iff, List.forall₂_same]
    intro group member
    obtain ⟨entry, only⟩ := List.length_eq_one_iff.mp (single group member)
    exact ⟨_, -1, by rw [only]; rfl, by rw [only]; rfl, by simp⟩
  · intro rows found
    cases found
    exact List.length_map _

def twoDecodes : Heap where
  seqData := [
    { promptTokenIds := [1, 2], numComputedTokens := 2, stage := .decode },
    { promptTokenIds := [3], outputTokenIds := 1, cachedAllTokenIds := 1, newAppendedTokens := 1,
      numComputedTokens := 2, stage := .decode }]
  arrays := [[5], [6, 7]]
  caches := [[1, 2, 5], [3, 6, 7]]
  appended := [[5], [6, 7]]

def twoGroups : List SingleGroup := [⟨0, false, 0, 0⟩, ⟨1, false, 1, 1⟩]

theorem twoGroups_ready : ∀ g ∈ twoGroups, g.Ready twoDecodes {1} := by
  intro g member
  obtain rfl | rfl : g = ⟨0, false, 0, 0⟩ ∨ g = ⟨1, false, 1, 1⟩ := by simpa [twoGroups] using member
  · exact ⟨⟨by decide, by decide, by decide, by decide⟩, by decide, by decide⟩
  · exact ⟨⟨by decide, by decide, by decide, by decide⟩, by decide, by decide⟩

theorem samplerOutput_lagging_twoGroups : ∃ sampled heap final,
      samplerOutput tenMore { seqGroupMetadataList := twoGroups.map SingleGroup.group } 2 {1} twoDecodes =
        .ok sampled heap ∧
      final = sampled.outputs.foldl appendSampled (twoGroups.map (·.history twoDecodes)) ∧
      sampled.passes.length = 2 ∧
      Ran {1} (twoGroups.map (·.history twoDecodes)) sampled.passes sampled.outputs ∧
      List.Forall₂ History.Shown (flat (withCopies {1} final)) (sampled.groups.map heap.groupView) ∧
      ∀ ref, twoDecodes.Valid ref → heap.view ref = twoDecodes.view ref ∧
        ∃ more, heap.newAppendedTokens ref = twoDecodes.newAppendedTokens ref ++ more ∧
          ∀ tokenId ∈ more, ∃ x ∈ final, tokenId ∈ x.outputTokenIds :=
  samplerOutput_lagging tenMore_samplesAll (by decide) twoGroups_ready 2

/-! ### What the scheduler sees -/

/-- The objects of the request are as they were. -/
def Unchanged (request : ExecuteModelRequest) (before after : Heap) : Prop :=
  ∀ group ∈ request.seqGroupMetadataList, ∀ entry ∈ group.seqData,
    after.view entry.2 = before.view entry.2 ∧ after.newAppendedTokens entry.2 = before.newAppendedTokens entry.2

instance (request : ExecuteModelRequest) (before after : Heap) : Decidable (Unchanged request before after) := by
  unfold Unchanged
  infer_instance

/-- The method raises before it copies anything. -/
def Refused (request : ExecuteModelRequest) : Prop :=
  request.cacheOperations = true ∨ ∃ group ∈ request.seqGroupMetadataList, group.seqData.length ≠ 1

variable {request : ExecuteModelRequest}

theorem samplerOutput_refused (refused : Refused request) (sampleLen : ℕ) :
    after (samplerOutput executeModel request sampleLen bonus) base = base := by
  have raised : raiseIfUnsupported request base = .error .notImplementedError base := by
    unfold raiseIfUnsupported
    by_cases operations : request.cacheOperations = true
    · rw [if_pos operations]
      rfl
    · have several : request.seqGroupMetadataList.any (fun group => group.seqData.length ≠ 1) = true := by
        obtain given | ⟨group, member, size⟩ := refused
        · exact absurd given operations
        · exact List.any_eq_true.mpr ⟨group, member, decide_eq_true size⟩
      rw [if_neg operations, several]
      rfl
  exact after_error (bind_of_error raised)

theorem passes_nil (n pass : ℕ) (h : Heap) : after (passes executeModel [] pass n []) h = h := by
  induction n generalizing pass with
  | zero => rfl
  | succ n ih =>
    unfold after
    rw [passes, get_bind, List.map_nil]
    cases called : executeModel pass [] with
    | nil => rfl
    | cons output outputs =>
      cases outputs with
      | cons => rfl
      | nil =>
        have later := ih (pass + 1)
        unfold after at later
        have none : appendNewTokens output.outputs [] [] h = .ok [] h := rfl
        dsimp only
        rw [bind_of_ok none, bind_apply]
        cases run : passes executeModel [] (pass + 1) n [] h with
        | ok result h' => rw [run] at later; exact later
        | error e h' => rw [run] at later; exact later

theorem samplerOutput_noGroups (none : request.seqGroupMetadataList = [])
    (sampleLen : ℕ) : after (samplerOutput executeModel request sampleLen bonus) base = base := by
  by_cases operations : request.cacheOperations = true
  · exact samplerOutput_refused (.inl operations) sampleLen
  · have accepted : raiseIfUnsupported request base = .ok () base := by
      unfold raiseIfUnsupported
      rw [if_neg operations, none]
      rfl
    have expanded : expandFrom bonus request.seqGroupMetadataList [] [] base = .ok ([], []) base := by
      rw [none]
      rfl
    have run := @passes_nil executeModel sampleLen 0 base
    unfold after samplerOutput at *
    rw [bind_of_ok accepted, bind_of_ok expanded]
    dsimp only
    rw [bind_apply]
    cases result : passes executeModel [] 0 sampleLen [] base with
    | error e h => rw [result] at run; exact run
    | ok ran h =>
      rw [result] at run
      dsimp only
      cases ran.1.mapM fun pass => filterModelOutput [] pass.output <;> exact run

/-- The objects of the request stay as they were when nothing is appended, and only then. -/
theorem samplerOutput_unchanged_iff (model : SamplesAll executeModel) (request : ExecuteModelRequest)
    (ready : ∀ g : SingleGroup, g.group ∈ request.seqGroupMetadataList → g.Ready base bonus) (sampleLen : ℕ) :
    Unchanged request base (after (samplerOutput executeModel request sampleLen bonus) base) ↔
      Refused request ∨ request.seqGroupMetadataList = [] ∨ sampleLen = 0 := by
  by_cases refused : Refused request
  · refine iff_of_true ?_ (.inl refused)
    rw [samplerOutput_refused refused]
    exact fun group _ entry _ => ⟨rfl, rfl⟩
  by_cases none : request.seqGroupMetadataList = []
  · refine iff_of_true ?_ (.inr (.inl none))
    rw [samplerOutput_noGroups none]
    exact fun group _ entry _ => ⟨rfl, rfl⟩
  have choice : Refused request ∨ request.seqGroupMetadataList = [] ∨ sampleLen = 0 ↔ sampleLen = 0 := by
    simp [refused, none]
  rw [choice]
  obtain ⟨groups, operations⟩ := request
  obtain ⟨rfl, single⟩ : operations = false ∧ ∀ group ∈ groups, group.seqData.length = 1 := by
    simpa [Refused] using refused
  obtain ⟨singles, rfl⟩ := exists_singleGroups single
  have nonempty : singles ≠ [] := fun empty => none (by rw [empty]; rfl)
  have each : ∀ g ∈ singles, g.Ready base bonus := fun g member => ready g (List.mem_map_of_mem member)
  obtain ⟨sampled, later, news, call, _, _, _, _, _, nothing, reached⟩ :=
    samplerOutput_run model nonempty each sampleLen
  rw [after_ok call]
  constructor
  · intro unchanged
    by_contra some_passes
    obtain ⟨g, member⟩ := List.exists_mem_of_ne_nil singles nonempty
    obtain ⟨tokenId, found⟩ := reached (Nat.pos_of_ne_zero some_passes) g member
    have same := (unchanged g.group (List.mem_map_of_mem member) (g.seqId, g.ref) (List.mem_singleton_self _)).2
    dsimp only at same
    rw [(old_object (each g member).valid news (flat later)).2, List.append_right_eq_self, List.map_eq_nil_iff,
      List.filter_eq_nil_iff] at same
    exact same _ found (decide_eq_true rfl)
  · intro no_passes group member entry found
    obtain ⟨g, there, rfl⟩ := List.mem_map.mp member
    rw [nothing no_passes, List.mem_singleton.mp found]
    simpa using old_object (each g there).valid [] (flat later)

theorem samplerOutput_unchanged_iff_twoGroups :
    Unchanged { seqGroupMetadataList := twoGroups.map SingleGroup.group } twoDecodes
        (after (samplerOutput tenMore { seqGroupMetadataList := twoGroups.map SingleGroup.group } 0 {1})
          twoDecodes) ↔
      Refused { seqGroupMetadataList := twoGroups.map SingleGroup.group } ∨
        twoGroups.map SingleGroup.group = [] ∨ 0 = 0 :=
  samplerOutput_unchanged_iff tenMore_samplesAll { seqGroupMetadataList := twoGroups.map SingleGroup.group }
    (fun g member => by
      obtain ⟨other, found, same⟩ := List.mem_map.mp member
      have same : g = other := by
        cases g
        cases other
        simpa [SingleGroup.group, eq_comm] using same
      exact same ▸ twoGroups_ready other found) 0

/-- After one pass, the draft model's token 15 is in the list of newly appended tokens of the first sequence. -/
theorem draftToken_appended :
    ¬Unchanged { seqGroupMetadataList := twoGroups.map SingleGroup.group } twoDecodes
      (after (samplerOutput tenMore { seqGroupMetadataList := twoGroups.map SingleGroup.group } 1 ∅) twoDecodes) := by
  decide +kernel

end Vllm.SpecDecode.MultiStep
