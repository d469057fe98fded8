import VllmProofs.V1.Pipeline
import VllmProofs.V1.ScheduledBatch

/-!
The slots of the encoder cache: those taken and those free make up the cache in every run, and there
are enough of them as long as the inputs picked for a request fit in together.
-/

namespace Vllm.V1
open Exec

variable {inputIds : List ℕ}

namespace EncoderCacheManager

variable {size size' : RequestId → ℕ → ℕ} {s : EncoderCacheManager} {request : Request} {id : RequestId} {i : ℕ}

/-! ### Slots taken and free -/

/-- The slots that cached inputs take, `size` being the length of each. -/
def usedSlots (size : RequestId → ℕ → ℕ) (cached : Dict RequestId (List ℕ)) : ℕ :=
  (cached.mapVal fun id inputIds => (inputIds.map (size id)).sum).sum fun n => n

structure Accounted (size : RequestId → ℕ → ℕ) (s : EncoderCacheManager) : Prop where
  nodup : ∀ id, (s.getCachedInputIds id).Nodup
  total : s.numFreeSlots + usedSlots size s.cached = s.cacheSize

theorem Accounted.congr (accounted : s.Accounted size)
    (same : ∀ id, s.getCachedInputIds id ≠ [] → size id = size' id) : s.Accounted size' := by
  refine ⟨accounted.nodup, ?_⟩
  have slots : usedSlots size' s.cached = usedSlots size s.cached := by
    unfold usedSlots
    rw [Dict.mapVal_congr]
    intro id inputIds found
    cases inputIds with
    | nil => rfl
    | cons i rest =>
      rw [same id]
      unfold getCachedInputIds
      rw [found]
      exact List.cons_ne_nil i rest
  rw [slots]
  exact accounted.total

theorem usedSlots_insert (cached : Dict RequestId (List ℕ)) (id : RequestId) (inputIds : List ℕ) :
    usedSlots size (cached.insert id inputIds) + (((cached.get? id).getD []).map (size id)).sum =
      usedSlots size cached + (inputIds.map (size id)).sum := by
  unfold usedSlots
  rw [Dict.mapVal_insert]
  cases found : cached.get? id with
  | none =>
    rw [Dict.sum_insert_of_none (by rw [Dict.get?_mapVal, found]; rfl)]
    rfl
  | some old => exact Dict.sum_insert_of_some (by rw [Dict.get?_mapVal, found]; rfl)

theorem usedSlots_erase (cached : Dict RequestId (List ℕ)) (id : RequestId) :
    usedSlots size (cached.erase id) + (((cached.get? id).getD []).map (size id)).sum = usedSlots size cached := by
  unfold usedSlots
  rw [Dict.mapVal_erase]
  cases found : cached.get? id with
  | none =>
    rw [Dict.erase_of_none (by rw [Dict.get?_mapVal, found]; rfl)]
    rfl
  | some old => exact Dict.sum_erase_of_some (by rw [Dict.get?_mapVal, found]; rfl)

/-! ### Taking slots -/

theorem getCachedInputIds_allocate (s : EncoderCacheManager) (request : Request) (i : ℕ) :
    (allocate request s i).getCachedInputIds =
      Function.update s.getCachedInputIds request.requestId ((s.getCachedInputIds request.requestId).insert i) := by
  funext id
  unfold getCachedInputIds allocate
  dsimp only
  rw [Dict.get?_insert, Function.update_apply]
  split
  · rfl
  · rfl

theorem Accounted.allocate (accounted : s.Accounted size) (absent : ¬s.hasCache request i)
    (known : request.getNumEncoderTokens i = size request.requestId i) : (allocate request s i).Accounted size := by
  have more : (s.getCachedInputIds request.requestId).insert i = i :: s.getCachedInputIds request.requestId :=
    List.insert_of_not_mem absent
  constructor
  · intro id
    rw [getCachedInputIds_allocate, Function.update_apply]
    split
    · exact (accounted.nodup _).insert
    · exact accounted.nodup id
  · have slots := @usedSlots_insert size s.cached request.requestId
      (i :: s.getCachedInputIds request.requestId)
    have total := accounted.total
    rw [← more] at slots
    show s.numFreeSlots - request.getNumEncoderTokens i +
      usedSlots size (s.cached.insert request.requestId ((s.getCachedInputIds request.requestId).insert i)) =
      (s.cacheSize : ℤ)
    rw [more, List.map_cons, List.sum_cons] at slots
    rw [known, more]
    unfold getCachedInputIds at slots ⊢
    omega

theorem Accounted.allocateAll (accounted : s.Accounted size) (nodup : inputIds.Nodup)
    (absent : ∀ i ∈ inputIds, ¬s.hasCache request i)
    (known : ∀ i ∈ inputIds, request.getNumEncoderTokens i = size request.requestId i) :
    (allocateAll request inputIds s).Accounted size := by
  induction inputIds generalizing s with
  | nil => exact accounted
  | cons i rest ih =>
    rw [List.nodup_cons] at nodup
    apply ih (accounted.allocate (absent i List.mem_cons_self) (known i List.mem_cons_self)) nodup.2
    · intro j member
      unfold hasCache
      rw [getCachedInputIds_allocate, Function.update_self, List.mem_insert_iff, not_or]
      refine ⟨?_, absent j (List.mem_cons_of_mem i member)⟩
      rintro rfl
      exact nodup.1 member
    · exact fun j member => known j (List.mem_cons_of_mem i member)

theorem numFreeSlots_allocateAll (s : EncoderCacheManager) (request : Request) (inputIds : List ℕ) :
    (allocateAll request inputIds s).numFreeSlots =
      s.numFreeSlots - (inputIds.map request.getNumEncoderTokens).sum := by
  induction inputIds generalizing s with
  | nil => simp [allocateAll]
  | cons i rest ih =>
    show (allocateAll request rest (EncoderCacheManager.allocate request s i)).numFreeSlots = _
    rw [ih, List.map_cons, List.sum_cons]
    show s.numFreeSlots - request.getNumEncoderTokens i - _ = _
    push_cast
    omega

@[simp] theorem cacheSize_allocateAll (s : EncoderCacheManager) (request : Request) (inputIds : List ℕ) :
    (allocateAll request inputIds s).cacheSize = s.cacheSize := by
  induction inputIds generalizing s with
  | nil => rfl
  | cons i rest ih => exact ih (EncoderCacheManager.allocate request s i)

theorem getCachedInputIds_allocateAll (other : id ≠ request.requestId) :
    (allocateAll request inputIds s).getCachedInputIds id = s.getCachedInputIds id := by
  induction inputIds generalizing s with
  | nil => rfl
  | cons i rest ih =>
    show (allocateAll request rest (EncoderCacheManager.allocate request s i)).getCachedInputIds id = _
    rw [ih, getCachedInputIds_allocate, Function.update_of_ne other]

/-! ### Giving slots back -/

/-- What `free_encoder_input` does to the cached inputs of a request that has some. -/
theorem freeEncoderInput_of_some (found : s.cached.get? request.requestId = some inputIds) :
    ∃ cached, (freeEncoderInput request s i = { s with
        cached
        numFreeSlots := s.numFreeSlots + request.getNumEncoderTokens i
        freed := s.freed ++ [(request.requestId, i)] }) ∧
      (cached = s.cached.insert request.requestId (inputIds.erase i) ∨
        inputIds.erase i = [] ∧ cached = s.cached.erase request.requestId) := by
  refine ⟨if (inputIds.erase i).length = 0 then s.cached.erase request.requestId
    else s.cached.insert request.requestId (inputIds.erase i), ?_, ?_⟩
  · unfold freeEncoderInput
    dsimp only
    rw [found]
  · split
    · rename_i none
      exact Or.inr ⟨List.length_eq_zero_iff.mp none, rfl⟩
    · exact Or.inl rfl

theorem freeEncoderInput_of_none (found : s.cached.get? request.requestId = none) :
    freeEncoderInput request s i = s := by
  unfold freeEncoderInput
  dsimp only
  rw [found]

theorem getCachedInputIds_freeEncoderInput (s : EncoderCacheManager) (request : Request) (i : ℕ) :
    (freeEncoderInput request s i).getCachedInputIds =
      Function.update s.getCachedInputIds request.requestId ((s.getCachedInputIds request.requestId).erase i) := by
  funext id
  rw [Function.update_apply]
  cases found : s.cached.get? request.requestId with
  | none =>
    rw [freeEncoderInput_of_none found]
    split
    · rename_i mine
      unfold getCachedInputIds
      rw [mine, found]
      rfl
    · rfl
  | some old =>
    obtain ⟨cached, same, written | ⟨none, dropped⟩⟩ := freeEncoderInput_of_some (i := i) found
    · rw [same, written]
      unfold getCachedInputIds
      dsimp only
      rw [Dict.get?_insert, found]
      split
      · rfl
      · rfl
    · rw [same, dropped]
      unfold getCachedInputIds
      dsimp only
      rw [Dict.get?_erase, found]
      split
      · exact none.symm
      · rfl

theorem Accounted.freeEncoderInput (accounted : s.Accounted size) (cached : s.hasCache request i)
    (known : request.getNumEncoderTokens i = size request.requestId i) :
    (freeEncoderInput request s i).Accounted size := by
  constructor
  · intro id
    rw [getCachedInputIds_freeEncoderInput, Function.update_apply]
    split
    · exact (accounted.nodup _).erase i
    · exact accounted.nodup id
  · have total := accounted.total
    unfold hasCache getCachedInputIds at cached
    cases found : s.cached.get? request.requestId with
    | none =>
      rw [found] at cached
      cases cached
    | some old =>
      rw [found] at cached
      have member : i ∈ old := cached
      have parts : size request.requestId i + ((old.erase i).map (size request.requestId)).sum =
          (old.map (size request.requestId)).sum := by
        rw [((List.perm_cons_erase member).map (size request.requestId)).sum_eq, List.map_cons, List.sum_cons]
      obtain ⟨left, same, written | ⟨none, dropped⟩⟩ := freeEncoderInput_of_some (i := i) found
      · have slots := @usedSlots_insert size s.cached request.requestId (old.erase i)
        rw [found, Option.getD_some] at slots
        rw [same, known, written]
        dsimp only
        omega
      · have slots := @usedSlots_erase size s.cached request.requestId
        rw [found, Option.getD_some] at slots
        rw [none, List.map_nil, List.sum_nil] at parts
        rw [same, known, dropped]
        dsimp only
        omega

theorem numFreeSlots_freeEncoderInput (s : EncoderCacheManager) (request : Request) (i : ℕ) :
    s.numFreeSlots ≤ (freeEncoderInput request s i).numFreeSlots := by
  cases found : s.cached.get? request.requestId with
  | none => rw [freeEncoderInput_of_none found]
  | some old =>
    obtain ⟨left, same, -⟩ := freeEncoderInput_of_some (i := i) found
    rw [same]
    exact Int.le_add_of_nonneg_right (Int.natCast_nonneg _)

@[simp] theorem cacheSize_freeEncoderInput (s : EncoderCacheManager) (request : Request) (i : ℕ) :
    (freeEncoderInput request s i).cacheSize = s.cacheSize := by
  cases found : s.cached.get? request.requestId with
  | none => rw [freeEncoderInput_of_none found]
  | some old =>
    obtain ⟨left, same, -⟩ := freeEncoderInput_of_some (i := i) found
    rw [same]

structure GaveBack (size : RequestId → ℕ → ℕ) (id : RequestId) (inputIds : List ℕ) (s t : EncoderCacheManager) :
    Prop where
  accounted : t.Accounted size
  numFreeSlots : s.numFreeSlots ≤ t.numFreeSlots
  cacheSize : t.cacheSize = s.cacheSize
  left : t.getCachedInputIds = Function.update s.getCachedInputIds id ((s.getCachedInputIds id).diff inputIds)

theorem Accounted.freeInputs (inputIds : List ℕ) (accounted : s.Accounted size) (nodup : inputIds.Nodup)
    (cached : ∀ i ∈ inputIds, s.hasCache request i)
    (known : request.getNumEncoderTokens = size request.requestId) :
    GaveBack size request.requestId inputIds s (freeInputs request inputIds s) := by
  induction inputIds generalizing s with
  | nil =>
    refine ⟨accounted, le_refl _, rfl, ?_⟩
    rw [List.diff_nil, Function.update_eq_self]
    rfl
  | cons i rest ih =>
    rw [List.nodup_cons] at nodup
    have first := accounted.freeEncoderInput (cached i List.mem_cons_self) (congrFun known i)
    have later : ∀ j ∈ rest, (EncoderCacheManager.freeEncoderInput request s i).hasCache request j := by
      intro j member
      unfold hasCache
      rw [getCachedInputIds_freeEncoderInput, Function.update_self, List.Nodup.mem_erase_iff (accounted.nodup _)]
      refine ⟨?_, cached j (List.mem_cons_of_mem i member)⟩
      rintro rfl
      exact nodup.1 member
    have others := ih first nodup.2 later
    refine ⟨others.accounted, (numFreeSlots_freeEncoderInput s request i).trans others.numFreeSlots, ?_, ?_⟩
    · exact others.cacheSize.trans (cacheSize_freeEncoderInput s request i)
    · have left := others.left
      rw [getCachedInputIds_freeEncoderInput, Function.update_self, Function.update_idem, ← List.diff_cons] at left
      exact left

theorem Accounted.free (accounted : s.Accounted size) (known : request.getNumEncoderTokens = size request.requestId) :
    (free request s).Accounted size ∧ s.numFreeSlots ≤ (free request s).numFreeSlots ∧
      (free request s).cacheSize = s.cacheSize ∧
      (free request s).getCachedInputIds = Function.update s.getCachedInputIds request.requestId [] := by
  have gave := accounted.freeInputs _ (accounted.nodup request.requestId) (fun _ member => member) known
  refine ⟨gave.accounted, gave.numFreeSlots, gave.cacheSize, ?_⟩
  have none : (s.getCachedInputIds request.requestId).diff (s.getCachedInputIds request.requestId) = [] := by
    apply List.eq_nil_iff_forall_not_mem.mpr
    intro i member
    obtain ⟨here, gone⟩ := (List.Nodup.mem_sdiff_iff (accounted.nodup _)).mp member
    exact gone here
  rw [← none]
  exact gave.left

end EncoderCacheManager

variable {request : Request} {c n budget : ℕ} {out : SchedulerOutput}

namespace Scheduler

variable {s t : Scheduler} {ref : RequestRef} {p p' : Pass}

/-! ### The inputs picked for a request -/

section
variable {cache : EncoderCacheManager} {request : Request} {c n i budget : ℕ} {ranges : List PlaceholderRange}

theorem planInputs_picked :
    (planInputs cache request c n i ranges budget).encoderInputsToSchedule.Nodup ∧
      ∀ j ∈ (planInputs cache request c n i ranges budget).encoderInputsToSchedule,
        i ≤ j ∧ ¬cache.hasCache request j := by
  induction ranges generalizing i budget with
  | nil => exact ⟨List.nodup_nil, by simp [planInputs]⟩
  | cons pos rest ih =>
    unfold planInputs
    split
    · exact ⟨List.nodup_nil, by simp⟩
    · split
      · obtain ⟨nodup, picked⟩ := @ih (i + 1) budget
        exact ⟨nodup, fun j member => ⟨(Nat.le_succ i).trans (picked j member).1, (picked j member).2⟩⟩
      · rename_i needed
        rw [not_or] at needed
        split
        · exact ⟨List.nodup_nil, by simp⟩
        · obtain ⟨nodup, picked⟩ := @ih (i + 1) (budget - pos.length)
          constructor
          · apply List.nodup_cons.mpr
            refine ⟨fun member => ?_, nodup⟩
            have above := (picked i member).1
            omega
          · intro j member
            rcases List.mem_cons.mp member with rfl | later
            · exact ⟨le_refl _, needed.2⟩
            · exact ⟨(Nat.le_succ i).trans (picked j later).1, (picked j later).2⟩

theorem tryScheduleEncoderInputs_picked (s : Scheduler) (request : Request) (c n budget : ℕ) :
    (s.tryScheduleEncoderInputs request c n budget).encoderInputsToSchedule.Nodup ∧
      ∀ j ∈ (s.tryScheduleEncoderInputs request c n budget).encoderInputsToSchedule,
        ¬s.encoderCacheManager.hasCache request j := by
  unfold tryScheduleEncoderInputs
  split
  · obtain ⟨nodup, picked⟩ := @planInputs_picked s.encoderCacheManager request c n 0 budget
      request.mmPositions.ranges
    exact ⟨nodup, fun j member => (picked j member).2⟩
  · exact ⟨List.nodup_nil, by simp⟩

/-- Every input the loop over inputs picks fits beside those it has picked before, which leave `room`. -/
def PicksFit (cache : EncoderCacheManager) (request : Request) (numComputedTokens numNewTokens : ℕ) :
    ℕ → List PlaceholderRange → ℕ → ℤ → Prop
  | _, [], _, _ => True
  | i, pos :: rest, encoderBudget, room =>
    if numComputedTokens + numNewTokens ≤ pos.offset then True
    else if pos.stop ≤ numComputedTokens ∨ cache.hasCache request i then
      PicksFit cache request numComputedTokens numNewTokens (i + 1) rest encoderBudget room
    else if ¬cache.canAllocate request i ∨ encoderBudget < pos.length then True
    else (pos.length : ℤ) ≤ room ∧ PicksFit cache request numComputedTokens numNewTokens (i + 1) rest
      (encoderBudget - pos.length) (room - pos.length)

theorem planInputs_fit {room : ℤ} (fit : PicksFit cache request c n i ranges budget room) (nonneg : 0 ≤ room)
    (at_ : request.mmPositions.ranges.drop i = ranges) :
    (((planInputs cache request c n i ranges budget).encoderInputsToSchedule.map
      request.getNumEncoderTokens).sum : ℕ) ≤ room := by
  induction ranges generalizing i budget room with
  | nil => simpa [planInputs] using nonneg
  | cons pos rest ih =>
    have next : request.mmPositions.ranges.drop (i + 1) = rest := by
      rw [← List.tail_drop, at_, List.tail_cons]
    unfold PicksFit at fit
    unfold planInputs
    split
    · simpa using nonneg
    · rename_i overlaps
      rw [if_neg overlaps] at fit
      split
      · rename_i needless
        rw [if_pos needless] at fit
        exact ih fit nonneg next
      · rename_i needed
        rw [if_neg needed] at fit
        split
        · simpa using nonneg
        · rename_i allowed
          rw [if_neg allowed] at fit
          have here : request.mmPositions.ranges[i]? = some pos := by
            rw [← List.head?_drop, at_, List.head?_cons]
          have length : request.getNumEncoderTokens i = pos.length := by
            unfold Request.getNumEncoderTokens
            rw [here]
            rfl
          have later := ih fit.2 (by omega) next
          rw [List.map_cons, List.sum_cons, length]
          rw [Nat.cast_add]
          omega

end

/-- The inputs that would be picked for a request fit into the cache together. -/
def picksFit (s : Scheduler) (request : Request) (numComputedTokens numNewTokens encoderBudget : ℕ) : Prop :=
  PicksFit s.encoderCacheManager request numComputedTokens numNewTokens 0 request.mmPositions.ranges
    encoderBudget s.encoderCacheManager.numFreeSlots

theorem tryScheduleEncoderInputs_fit (fit : s.picksFit request c n budget)
    (nonneg : 0 ≤ s.encoderCacheManager.numFreeSlots) :
    (((s.tryScheduleEncoderInputs request c n budget).encoderInputsToSchedule.map
      request.getNumEncoderTokens).sum : ℕ) ≤ s.encoderCacheManager.numFreeSlots := by
  unfold tryScheduleEncoderInputs
  split
  · exact planInputs_fit fit nonneg List.drop_zero
  · exact nonneg

/-! ### The slots of the scheduler's requests -/

/-- The length of an input of the request that has the id. -/
def encoderSize (s : Scheduler) (id : RequestId) (i : ℕ) : ℕ :=
  match s.requests.get? id with
  | none => 0
  | some ref => (s.objects ref).getNumEncoderTokens i

structure EncoderAccounted (cacheSize : ℕ) (s : Scheduler) : Prop where
  slots : s.encoderCacheManager.Accounted s.encoderSize
  live : ∀ id, s.encoderCacheManager.getCachedInputIds id ≠ [] → ∃ ref, s.requests.get? id = some ref
  cacheSize : s.encoderCacheManager.cacheSize = cacheSize

variable {cacheSize : ℕ}

theorem encoderSize_of_known {id : RequestId} (known : s.requests.get? id = some ref) :
    s.encoderSize id = (s.objects ref).getNumEncoderTokens := by
  funext i
  unfold encoderSize
  rw [known]

theorem EncoderAccounted.change (accounted : s.EncoderAccounted cacheSize)
    (slots : t.encoderCacheManager.Accounted s.encoderSize)
    (size : t.encoderCacheManager.cacheSize = s.encoderCacheManager.cacheSize)
    (live : ∀ id, t.encoderCacheManager.getCachedInputIds id ≠ [] → ∃ ref, s.requests.get? id = some ref ∧
      t.requests.get? id = some ref ∧ (t.objects ref).mmPositions = (s.objects ref).mmPositions) :
    t.EncoderAccounted cacheSize := by
  refine ⟨slots.congr ?_, ?_, size.trans accounted.cacheSize⟩
  · intro id some
    obtain ⟨ref, before, after, same⟩ := live id some
    rw [encoderSize_of_known before, encoderSize_of_known after]
    unfold Request.getNumEncoderTokens
    rw [same]
  · intro id some
    obtain ⟨ref, -, after, -⟩ := live id some
    exact ⟨ref, after⟩

theorem EncoderAccounted.same (accounted : s.EncoderAccounted cacheSize)
    (cache : t.encoderCacheManager = s.encoderCacheManager) (requests : t.requests = s.requests)
    (positions : ∀ ref, (t.objects ref).mmPositions = (s.objects ref).mmPositions) :
    t.EncoderAccounted cacheSize := by
  apply accounted.change
  · rw [cache]
    exact accounted.slots
  · rw [cache]
  · rw [cache, requests]
    intro id some
    obtain ⟨ref, known⟩ := accounted.live id some
    exact ⟨ref, known, known, positions ref⟩

theorem mmPositions_update (objects : t.objects = Function.update s.objects ref request)
    (same : request.mmPositions = (s.objects ref).mmPositions) (ref' : RequestRef) :
    (t.objects ref').mmPositions = (s.objects ref').mmPositions := by
  rw [objects, Function.update_apply]
  split
  · rename_i here
    rw [here, same]
  · rfl

theorem EncoderAccounted.give (request : Request) {plan : EncoderPlan}
    (accounted : s.EncoderAccounted cacheSize) (known : s.requests.get? (s.objects ref).requestId = some ref)
    (planned : plan = s.tryScheduleEncoderInputs (s.objects ref) c n budget)
    (cache : t.encoderCacheManager =
      s.encoderCacheManager.allocateAll (s.objects ref) plan.encoderInputsToSchedule)
    (requests : t.requests = s.requests) (objects : t.objects = Function.update s.objects ref request)
    (positions : request.mmPositions = (s.objects ref).mmPositions) :
    t.EncoderAccounted cacheSize ∧ (s.picksFit (s.objects ref) c n budget →
      0 ≤ s.encoderCacheManager.numFreeSlots → 0 ≤ t.encoderCacheManager.numFreeSlots) := by
  subst planned
  obtain ⟨nodup, picked⟩ := tryScheduleEncoderInputs_picked s (s.objects ref) c n budget
  constructor
  · apply accounted.change
    · rw [cache]
      apply accounted.slots.allocateAll nodup picked
      intro i _
      rw [encoderSize_of_known known]
    · rw [cache, EncoderCacheManager.cacheSize_allocateAll]
    · rw [cache, requests]
      intro id some
      by_cases mine : id = (s.objects ref).requestId
      · rw [mine]
        exact ⟨ref, known, known, mmPositions_update objects positions ref⟩
      · rw [EncoderCacheManager.getCachedInputIds_allocateAll mine] at some
        obtain ⟨ref', known'⟩ := accounted.live id some
        exact ⟨ref', known', known', mmPositions_update objects positions ref'⟩
  · intro fit nonneg
    have total := tryScheduleEncoderInputs_fit fit nonneg
    rw [cache, EncoderCacheManager.numFreeSlots_allocateAll]
    omega

/-! ### `schedule` -/

variable [TupleHash]

/-- If a request is about to be given tokens, the inputs picked for it fit together. -/
def RunFits (s : Scheduler) (p : Pass) : Prop :=
  ∀ ref plan newBlocks manager, RunAttempt s p ref plan →
    KVCacheManager.allocateSlots (s.objects ref) plan.numNewTokens [] s.kvCacheManager = .ok (some newBlocks) manager →
    s.picksFit (s.objects ref) (s.objects ref).numComputedTokens (numNewRunning p (s.objects ref)) p.encoderBudget

def AdmitFits (s : Scheduler) (p : Pass) : Prop :=
  ∀ ref hits c n plan looked newBlocks manager, AdmitAttempt s p ref hits c n plan looked →
    KVCacheManager.allocateSlots (s.objects ref) plan.numNewTokens hits looked = .ok (some newBlocks) manager →
    s.picksFit (s.objects ref) c n p.encoderBudget

/-- Whenever a call of `schedule` gives a request tokens, the inputs picked for it fit together. -/
def AlwaysFits (s : Scheduler) : Prop := ∀ u p, Moves s s.startPass u p → RunFits u p ∧ AdmitFits u p

theorem EncoderAccounted.move (serving : (putBack p s).Serving) (accounted : s.EncoderAccounted cacheSize)
    (move : Move (s, p) (t, p')) :
    t.EncoderAccounted cacheSize ∧
      (RunFits s p → AdmitFits s p →
        0 ≤ s.encoderCacheManager.numFreeSlots → 0 ≤ t.encoderCacheManager.numFreeSlots) := by
  have positions (ref : RequestRef) := (move.evolves ref).mmPositions
  have requests := move.moves.requests
  cases move with
  | skip => exact ⟨accounted, fun _ _ nonneg => nonneg⟩
  | recordLoras => exact ⟨accounted, fun _ _ nonneg => nonneg⟩
  | setAside => exact ⟨accounted.same rfl rfl fun _ => rfl, fun _ _ nonneg => nonneg⟩
  | lookup => exact ⟨accounted.same rfl rfl fun _ => rfl, fun _ _ nonneg => nonneg⟩
  | preempt attempt lacks last freed =>
    exact ⟨accounted.same rfl rfl positions, fun _ _ nonneg => nonneg⟩
  | @wake _ _ ref turn ready =>
    have cache : (wake ref s).encoderCacheManager = s.encoderCacheManager := by
      unfold wake
      split <;> rfl
    exact ⟨accounted.same cache requests positions, fun _ _ nonneg => by rwa [cache]⟩
  | @run _ _ ref plan newBlocks manager attempt got =>
    have known := (serving.queued.known ref (List.mem_append_left _ attempt.running)).2
    obtain ⟨after, room⟩ := accounted.give (t := takeRunning ref plan (s.setKVCacheManager manager))
      ((s.objects ref).trimmed plan.numNewTokens) known attempt.planned rfl rfl rfl rfl
    exact ⟨after, fun running _ nonneg => room (running ref plan newBlocks manager attempt got) nonneg⟩
  | @admitRequest _ _ ref hits newBlocks c n plan looked manager attempt status got =>
    obtain ⟨rest, queue⟩ := attempt.waiting
    have member : ref ∈ (putBack p s).waiting := by
      rw [putBack_waiting, queue]
      exact List.mem_append_right _ List.mem_cons_self
    have known := (serving.queued.known ref (List.mem_append_right _ member)).2
    obtain ⟨after, room⟩ := accounted.give (t := takeWaiting ref c plan (s.setKVCacheManager manager))
      ((s.objects ref).run c) known attempt.planned rfl rfl rfl rfl
    exact ⟨after, fun _ waiting nonneg => room (waiting ref hits c n plan looked newBlocks manager attempt got) nonneg⟩

/-- The slots are accounted for, and there are not fewer free ones than before. -/
def EncoderKept (cacheSize : ℕ) (s t : Scheduler) : Prop :=
  t.EncoderAccounted cacheSize ∧ s.encoderCacheManager.numFreeSlots ≤ t.encoderCacheManager.numFreeSlots

theorem EncoderAccounted.schedule (serving : s.Serving)
    (accounted : s.EncoderAccounted cacheSize) (call : schedule s = .ok out t) :
    t.EncoderAccounted cacheSize ∧ (s.AlwaysFits → 0 ≤ s.encoderCacheManager.numFreeSlots →
      0 ≤ t.encoderCacheManager.numFreeSlots) := by
  obtain ⟨u, p, moves, scheduled⟩ := schedule_ok call
  have after := moves.invariant
    (I := fun v q => v.EncoderAccounted cacheSize ∧ (s.AlwaysFits → 0 ≤ s.encoderCacheManager.numFreeSlots →
      0 ≤ v.encoderCacheManager.numFreeSlots)) ⟨accounted, fun _ nonneg => nonneg⟩ ?_
  · rw [scheduled.state]
    obtain ⟨slots, live, size⟩ := after.1
    exact ⟨⟨⟨slots.nodup, slots.total⟩, live, size⟩, after.2⟩
  · intro v q v' q' before kept move
    obtain ⟨next, room⟩ := kept.1.move (serving.moves before) move
    exact ⟨next, fun fits nonneg => room (fits v q before).1 (fits v q before).2 (kept.2 fits nonneg)⟩

end Scheduler

namespace Scheduler

variable {s t : Scheduler} {ref : RequestRef} {cacheSize : ℕ}

/-! ### The other calls -/

variable {cache : EncoderCacheManager}

/-- A request has gone; some of its inputs may have been freed before the others. -/
theorem EncoderAccounted.release (request : Request)
    (accounted : s.EncoderAccounted cacheSize) (known : s.requests.get? (s.objects ref).requestId = some ref)
    (serving : s.Serving) (named : request.requestId = (s.objects ref).requestId)
    (positions : request.mmPositions = (s.objects ref).mmPositions)
    (gave : EncoderCacheManager.GaveBack s.encoderSize request.requestId inputIds s.encoderCacheManager cache)
    (freed : t.encoderCacheManager = cache.free request)
    (requests : t.requests = s.requests.erase (s.objects ref).requestId)
    (objects : ∀ ref' ≠ ref, t.objects ref' = s.objects ref') : EncoderKept cacheSize s t := by
  have size : request.getNumEncoderTokens = s.encoderSize request.requestId := by
    rw [named, encoderSize_of_known known]
    unfold Request.getNumEncoderTokens
    rw [positions]
  obtain ⟨slots, room, total, left⟩ := gave.accounted.free size
  constructor
  · apply accounted.change
    · rw [freed]
      exact slots
    · rw [freed, total, gave.cacheSize]
    · rw [freed, left, requests, named]
      intro id some
      have other : id ≠ (s.objects ref).requestId := by
        rintro rfl
        rw [Function.update_self] at some
        exact some rfl
      rw [Function.update_of_ne other, gave.left, named, Function.update_of_ne other] at some
      obtain ⟨ref', known'⟩ := accounted.live id some
      refine ⟨ref', known', ?_, ?_⟩
      · rw [Dict.get?_erase_ne other]
        exact known'
      · rw [objects]
        rintro rfl
        exact other (serving.queued.queued id ref' known').2.symm
  · rw [freed]
    exact gave.numFreeSlots.trans room

theorem gaveBack_nothing (accounted : s.EncoderAccounted cacheSize) (id : RequestId) :
    EncoderCacheManager.GaveBack s.encoderSize id [] s.encoderCacheManager s.encoderCacheManager := by
  refine ⟨accounted.slots, le_refl _, rfl, ?_⟩
  rw [List.diff_nil, Function.update_eq_self]

variable {finishedStatus : RequestStatus}

theorem EncoderAccounted.finishRequest {id : RequestId} {u : Unit}
    (serving : s.Serving) (accounted : s.EncoderAccounted cacheSize)
    (call : finishRequest finishedStatus id s = .ok u t) : EncoderKept cacheSize s t := by
  rcases finishRequest_ok call with ⟨-, rfl⟩ | ⟨ref, dequeued, found, left, -, -, freed, manager, -, -, rfl⟩
  · exact ⟨accounted, le_refl _⟩
  · have known := (serving.queued.queued id ref found).2
    rw [← known] at found
    have same : dequeued.objects = s.objects ∧ dequeued.requests = s.requests ∧
        dequeued.encoderCacheManager = s.encoderCacheManager := by
      cases left with
      | running => exact ⟨rfl, rfl, rfl⟩
      | waiting => exact ⟨rfl, rfl, rfl⟩
    obtain ⟨objects, requests, cache⟩ := same
    apply accounted.release ((s.objects ref).setStatus finishedStatus) found serving
    · rfl
    · rfl
    · exact gaveBack_nothing accounted _
    · simp [objects, cache]
    · simp [objects, requests]
    · intro ref' other
      simp [objects, other]

theorem EncoderAccounted.finishEach {ids : List RequestId} {u : PUnit}
    (serving : s.Serving) (accounted : s.EncoderAccounted cacheSize)
    (call : ids.forM (Scheduler.finishRequest finishedStatus) s = .ok u t) : EncoderKept cacheSize s t := by
  induction ids generalizing s with
  | nil =>
    cases call
    exact ⟨accounted, le_refl _⟩
  | cons id rest ih =>
    obtain ⟨_, v, first, others⟩ := bind_ok call
    obtain ⟨after, room⟩ := accounted.finishRequest serving first
    obtain ⟨last, room'⟩ := ih (serving.finishRequest first) after others
    exact ⟨last, room.trans room'⟩

theorem EncoderAccounted.add (serving : s.Serving) (accounted : s.EncoderAccounted cacheSize)
    (unused : s.requests.get? request.requestId = none) : EncoderKept cacheSize s (s.addRequest request) := by
  refine ⟨?_, le_refl _⟩
  apply accounted.change
  · exact accounted.slots
  · rfl
  · intro id some
    obtain ⟨ref, known⟩ := accounted.live id some
    have other : id ≠ request.requestId := by
      rintro rfl
      rw [unused] at known
      cases known
    have older : ref ≠ s.numObjects := by
      rintro rfl
      exact lt_irrefl _ (serving.queued.known _ (serving.queued.queued id _ known).1).1
    refine ⟨ref, known, ?_, ?_⟩
    · rw [addRequest_requests, Dict.get?_insert_ne other]
      exact known
    · simp [older]

variable {result : ModelRunnerOutput}

/-- An update of a request that is in a queue. -/
theorem EncoderAccounted.updateRequest
    {sent : Option EngineCoreOutput} {stopped : Bool} {queue : List RequestRef}
    (serving : (s.setRunning queue).Serving) (member : ref ∈ queue) (accounted : s.EncoderAccounted cacheSize)
    (call : updateRequest out result ref s = .ok (sent, stopped) t) : EncoderKept cacheSize s t := by
  have known : s.requests.get? (s.objects ref).requestId = some ref :=
    (serving.queued.known ref (List.mem_append_left _ member)).2
  have accounted' : (s.setRunning queue).EncoderAccounted cacheSize := accounted.same rfl rfl fun _ => rfl
  rcases updateRequest_ok call with ⟨-, rfl, rfl⟩ | ⟨n, gen, new, request, -, -, updated⟩
  · exact ⟨accounted, le_refl _⟩
  · have named := updated.evolves.requestId
    have positions := updated.evolves.mmPositions
    have size : request.getNumEncoderTokens = s.encoderSize request.requestId := by
      rw [named, encoderSize_of_known known, updated.evolves.getNumEncoderTokens]
    have gave := accounted.slots.freeInputs
      ((s.encoderCacheManager.getCachedInputIds request.requestId).filter fun inputId =>
        ∃ pos ∈ request.mmPositions.ranges[inputId]?, pos.stop ≤ request.numComputedTokens)
      ((accounted.slots.nodup _).filter _) (fun i there => (List.mem_filter.mp there).1) size
    rcases updated.state with ⟨rfl, rfl⟩ | ⟨rfl, v, ⟨-, -, freed, manager, free, drop, rfl⟩, rfl⟩
    · refine ⟨?_, gave.numFreeSlots⟩
      apply accounted.change
      · exact gave.accounted
      · exact gave.cacheSize
      · intro id some
        change (EncoderCacheManager.freeInputs _ _ _).getCachedInputIds id ≠ [] at some
        rw [gave.left, Function.update_apply] at some
        have before : s.encoderCacheManager.getCachedInputIds id ≠ [] := by
          split at some
          · rename_i mine
            rw [mine]
            rintro none
            rw [none, List.nil_diff] at some
            exact some rfl
          · exact some
        obtain ⟨ref', known'⟩ := accounted.live id before
        refine ⟨ref', known', known', ?_⟩
        apply mmPositions_update
        · rfl
        · exact positions
    · apply accounted'.release request known serving named positions gave
      · simp [freeComputedInputs]
      · simp [named]
      · intro ref' other
        simp [other]

theorem EncoderAccounted.updateFromOutput
    {outputs : List EngineCoreOutput} (serving : s.Serving) (accounted : s.EncoderAccounted cacheSize)
    (call : updateFromOutput out result s = .ok outputs t) : EncoderKept cacheSize s t := by
  unfold Scheduler.updateFromOutput at call
  rw [get_bind] at call
  obtain ⟨found, v, updates, call⟩ := bind_ok call
  obtain ⟨sent, newRunning⟩ := found
  cases call
  have start : (s.setRunning ([] ++ s.running)).Serving := serving
  have after := updateEach_invariant
    (I := fun kept rest v => (v.setRunning (kept ++ rest)).Serving ∧ EncoderKept cacheSize s v)
    ?_ ⟨start, accounted, le_refl _⟩ updates
  · exact ⟨after.2.1.same rfl rfl fun _ => rfl, after.2.2⟩
  · intro kept ref rest u w sent stopped before updated
    obtain ⟨serves, slots, room⟩ := before
    obtain ⟨slots', room'⟩ := slots.updateRequest serves (List.mem_append_right _ List.mem_cons_self) updated
    exact ⟨serves.updateRequest updated, slots', room.trans room'⟩

/-- Every call but `schedule` keeps the slots accounted for, and takes none. -/
theorem EncoderAccounted.between (serving : s.Serving) (accounted : s.EncoderAccounted cacheSize)
    (between : Between s t) : EncoderKept cacheSize s t := by
  cases between with
  | add unused new => exact accounted.add serving unused
  | finish call =>
    unfold finishRequests at call
    obtain ⟨_, _, checked, call⟩ := bind_ok call
    obtain ⟨-, rfl⟩ := check_ok checked
    exact accounted.finishEach serving call
  | grammarReady ref =>
    refine ⟨accounted.same rfl rfl ?_, le_refl _⟩
    apply mmPositions_update
    · rfl
    · rfl
  | resetPrefixCache call =>
    obtain ⟨manager, -, rfl⟩ := zoom_ok call
    exact ⟨accounted.same rfl rfl fun _ => rfl, le_refl _⟩
  | update call => exact accounted.updateFromOutput serving call

variable [TupleHash]

/-! ### Requests whose inputs all fit in together -/

/-- The slots that the inputs of all requests would take. -/
def encoderDemand (s : Scheduler) : ℕ :=
  s.requests.sum fun ref => ((s.objects ref).mmPositions.ranges.map PlaceholderRange.length).sum

omit [TupleHash] in
theorem sum_getNumEncoderTokens_le (request : Request) (nodup : inputIds.Nodup) :
    (inputIds.map request.getNumEncoderTokens).sum ≤
      (request.mmPositions.ranges.map PlaceholderRange.length).sum := by
  have whole : (request.mmPositions.ranges.map PlaceholderRange.length).sum =
      ∑ i ∈ Finset.range request.mmPositions.ranges.length, request.getNumEncoderTokens i := by
    unfold Request.getNumEncoderTokens
    induction request.mmPositions.ranges with
    | nil => rfl
    | cons pos rest ih =>
      rw [List.length_cons, Finset.sum_range_succ', List.map_cons, List.sum_cons, ih, add_comm]
      rfl
  rw [whole, ← List.sum_toFinset _ nodup]
  refine Finset.sum_le_sum_of_ne_zero fun i _ counts => Finset.mem_range.mpr ?_
  by_contra outside
  refine counts ?_
  unfold Request.getNumEncoderTokens
  rw [List.getElem?_eq_none (not_lt.mp outside)]
  rfl

omit [TupleHash] in
theorem usedSlots_le_demand (nodup : ∀ id, (cache.getCachedInputIds id).Nodup)
    (live : ∀ id, cache.getCachedInputIds id ≠ [] → ∃ ref, s.requests.get? id = some ref) :
    EncoderCacheManager.usedSlots s.encoderSize cache.cached ≤ s.encoderDemand := by
  unfold EncoderCacheManager.usedSlots encoderDemand
  have once : s.requests.keys.Nodup := s.requests.nodup
  rw [Dict.sum_eq_sum_keys once, Dict.sum_eq_sum_keys once]
  · refine List.sum_le_sum fun id member => ?_
    obtain ⟨ref, known⟩ := Dict.mem_keys_iff.mp member
    have own := nodup id
    unfold EncoderCacheManager.getCachedInputIds at own
    rw [Dict.get?_mapVal, known, encoderSize_of_known known]
    cases cached : cache.cached.get? id with
    | none => exact Nat.zero_le _
    | some inputIds =>
      rw [cached] at own
      exact sum_getNumEncoderTokens_le _ own
  · intro id ref known absent
    exact absurd (Dict.mem_keys_iff.mpr ⟨ref, known⟩) absent
  · intro id slots found absent
    rw [Dict.get?_mapVal] at found
    obtain ⟨inputIds, cached, rfl⟩ := Option.map_eq_some_iff.mp found
    by_contra some
    obtain ⟨ref, known⟩ := live id (by
      unfold EncoderCacheManager.getCachedInputIds
      rw [cached]
      rintro rfl
      exact some rfl)
    exact absent (Dict.mem_keys_iff.mpr ⟨ref, known⟩)

omit [TupleHash] in
theorem picksFit_of_room {i : ℕ}
    {ranges : List PlaceholderRange} {room : ℤ} (at_ : request.mmPositions.ranges.drop i = ranges)
    (enough : (((List.range' i ranges.length).filter fun j => ¬cache.hasCache request j).map
      request.getNumEncoderTokens).sum ≤ room) : PicksFit cache request c n i ranges budget room := by
  induction ranges generalizing i budget room with
  | nil => trivial
  | cons pos rest ih =>
    have next : request.mmPositions.ranges.drop (i + 1) = rest := by
      rw [← List.tail_drop, at_, List.tail_cons]
    have size : request.getNumEncoderTokens i = pos.length := by
      unfold Request.getNumEncoderTokens
      rw [← List.head?_drop, at_]
      rfl
    rw [List.length_cons, List.range'_succ, List.filter_cons] at enough
    unfold PicksFit
    split
    · trivial
    · split
      · refine ih next (le_trans ?_ enough)
        split
        · rw [List.map_cons, List.sum_cons, Nat.cast_add]
          omega
        · exact le_refl _
      · rename_i needed
        rw [not_or] at needed
        rw [if_pos (decide_eq_true needed.2), List.map_cons, List.sum_cons, size,
          Nat.cast_add] at enough
        split
        · trivial
        · exact ⟨by omega, ih next (by omega)⟩

omit [TupleHash] in
theorem EncoderAccounted.picksFit (accounted : s.EncoderAccounted cacheSize)
    (enough : s.encoderDemand ≤ cacheSize) (known : s.requests.get? (s.objects ref).requestId = some ref) :
    s.picksFit (s.objects ref) c n budget := by
  refine picksFit_of_room List.drop_zero ?_
  -- taking all that is missing keeps to the cache's size
  set missing := (List.range' 0 (s.objects ref).mmPositions.ranges.length).filter fun j =>
    ¬s.encoderCacheManager.hasCache (s.objects ref) j
  have apart : missing.Nodup := (List.nodup_range' 1).filter _
  have full := accounted.slots.allocateAll apart
    (fun i member => by simpa using (List.mem_filter.mp member).2)
    (fun i _ => by rw [encoderSize_of_known known])
  have fits := usedSlots_le_demand full.nodup fun id cached => by
    by_cases mine : id = (s.objects ref).requestId
    · exact ⟨ref, mine ▸ known⟩
    · rw [EncoderCacheManager.getCachedInputIds_allocateAll mine] at cached
      exact accounted.live id cached
  have total := full.total
  rw [EncoderCacheManager.numFreeSlots_allocateAll, EncoderCacheManager.cacheSize_allocateAll,
    accounted.cacheSize] at total
  omega

theorem encoderDemand_move (move : Move (s, p) (t, p')) : t.encoderDemand = s.encoderDemand := by
  unfold encoderDemand
  rw [move.moves.requests]
  congr 1
  funext ref
  rw [(move.evolves ref).mmPositions]

/-- The picks fit if the cache can hold the inputs of all requests at once. -/
theorem alwaysFits_of_demand (serving : s.Serving) (accounted : s.EncoderAccounted cacheSize)
    (enough : s.encoderDemand ≤ cacheSize) : s.AlwaysFits := by
  intro u p moves
  have kept := moves.invariant (I := fun v _ => v.EncoderAccounted cacheSize ∧ v.encoderDemand = s.encoderDemand)
    ⟨accounted, rfl⟩ fun v q v' q' before kept move =>
      ⟨(kept.1.move (serving.moves before) move).1, (encoderDemand_move move).trans kept.2⟩
  have known := (serving.moves moves).queued.known
  have fits {ref : RequestRef} (member : ref ∈ u.running ++ (putBack p u).waiting) {c n budget : ℕ} :
      u.picksFit (u.objects ref) c n budget :=
    kept.1.picksFit (kept.2.trans_le enough) (known ref member).2
  exact ⟨fun ref _ _ _ attempt _ => fits (List.mem_append_left _ attempt.running),
    fun ref _ _ _ _ _ _ _ attempt _ => fits (List.mem_append_right _ attempt.toWaitingTurn.waits)⟩

end Scheduler

namespace Pipeline

section
variable [TupleHash] {e : Pipeline}

/-- Any step keeps the slots accounted for, and leaves no debt if the picked inputs fit together. -/
theorem encoderAccounted_step {cacheSize : ℕ} {e' : Pipeline} {event : PipelineEvent}
    (serving : e.scheduler.Serving) (accounted : e.scheduler.EncoderAccounted cacheSize)
    (stepped : e.step event = some e') :
    e'.scheduler.EncoderAccounted cacheSize ∧ ((event = .schedule → e.scheduler.AlwaysFits) →
      0 ≤ e.scheduler.encoderCacheManager.numFreeSlots → 0 ≤ e'.scheduler.encoderCacheManager.numFreeSlots) := by
  rcases step_cases stepped with ⟨rfl, out, t, call, rfl⟩ | ⟨-, between⟩
  · obtain ⟨after, room⟩ := accounted.schedule serving call
    exact ⟨after, fun fits nonneg => room (fits rfl) nonneg⟩
  · obtain ⟨after, more⟩ := accounted.between serving between
    exact ⟨after, fun _ nonneg => nonneg.trans more⟩

omit [TupleHash] in
theorem encoderAccounted_start (config : SchedulerConfig) :
    (start config).scheduler.EncoderAccounted config.encoderCacheSize :=
  ⟨⟨fun _ => List.nodup_nil, rfl⟩, fun _ some => absurd rfl some, rfl⟩

variable {history : List PipelineEvent}

/-- In every run the free slots of the encoder cache are those that no cached input takes. -/
theorem encoderAccounted {config : SchedulerConfig}
    (reached : Reaches config history e) : e.scheduler.EncoderAccounted config.encoderCacheSize := by
  induction reached with
  | start => exact encoderAccounted_start config
  | call before stepped ih => exact (encoderAccounted_step (serving before) ih stepped).1

/-- A run in which inputs are picked for a request only if they fit together. -/
abbrev ReachesFitting (config : SchedulerConfig) (history : List PipelineEvent) (e : Pipeline) : Prop :=
  Run (fun e event e' => e.step event = some e' ∧ (event = .schedule → e.scheduler.AlwaysFits))
    (start config) history e

theorem ReachesFitting.reaches {config : SchedulerConfig}
    (reached : ReachesFitting config history e) : Reaches config history e :=
  reached.mono fun _ _ _ stepped => stepped.1

/-- In such a run no more slots are taken than there are. -/
theorem encoder_slots {config : SchedulerConfig} {history : List PipelineEvent} {e : Pipeline}
    (reached : ReachesFitting config history e) :
    e.scheduler.encoderCacheManager.numFreeSlots = config.encoderCacheSize -
        (EncoderCacheManager.usedSlots e.scheduler.encoderSize e.scheduler.encoderCacheManager.cached : ℤ) ∧
      0 ≤ e.scheduler.encoderCacheManager.numFreeSlots := by
  have accounted := encoderAccounted reached.reaches
  constructor
  · have total := accounted.slots.total
    rw [accounted.cacheSize] at total
    omega
  · clear accounted
    induction reached with
    | start => exact Int.natCast_nonneg _
    | call before stepped ih =>
      have reaches := ReachesFitting.reaches before
      exact (encoderAccounted_step (serving reaches) (encoderAccounted reaches) stepped.1).2 stepped.2 ih

end

/-! ### A request with two inputs -/

section
attribute [local instance] sumHash

def imageConfig : SchedulerConfig where
  blockSize := 4
  numGpuBlocks := 8
  maxModelLen := 32
  enableCaching := true
  blocksHaveSlots := CacheConfig.four_pos
  someBlocks := CacheConfig.eight_pos
  maxNumSeqs := 4
  maxNumBatchedTokens := 16
  maxNumEncoderInputTokens := 16
  encoderCacheSize := 10

def twoImages : Request where
  requestId := 0
  samplingParams := { maxTokens := 4 }
  promptTokenIds := List.replicate 12 1
  mmPositions := { ranges := [⟨0, 6⟩, ⟨6, 6⟩] }
  mmInputs := [0, 1]
  mmHashes := [11, 12]

def smallImages : Request := { twoImages with mmPositions := { ranges := [⟨0, 5⟩, ⟨5, 5⟩] } }

/-- Both inputs of the request are cached in one step, and fill the cache. -/
theorem smallImages_slots : ∃ e, ReachesFitting imageConfig [.schedule, .add smallImages] e ∧
    e.scheduler.encoderCacheManager.getCachedInputIds 0 = [1, 0] ∧
    e.scheduler.encoderCacheManager.numFreeSlots = imageConfig.encoderCacheSize -
        (EncoderCacheManager.usedSlots e.scheduler.encoderSize e.scheduler.encoderCacheManager.cached : ℤ) ∧
      0 ≤ e.scheduler.encoderCacheManager.numFreeSlots := by
  have added : (start imageConfig).step (.add smallImages) =
      some { start imageConfig with scheduler := (start imageConfig).scheduler.addRequest smallImages } :=
    step_add rfl (by decide)
  have waiting : ReachesFitting imageConfig [.add smallImages] _ := .call .start ⟨added, nofun⟩
  have found : (Pipeline.step { start imageConfig with
      scheduler := (start imageConfig).scheduler.addRequest smallImages } .schedule).any
        (fun e => decide (e.scheduler.encoderCacheManager.getCachedInputIds 0 = [1, 0])) = true := by
    decide +kernel
  obtain ⟨e, scheduled, both⟩ := (Option.any_eq_true _ _).mp found
  have fits := Scheduler.alwaysFits_of_demand (serving waiting.reaches)
    (encoderAccounted waiting.reaches) (by decide +kernel)
  have reached : ReachesFitting imageConfig [.schedule, .add smallImages] e :=
    .call waiting ⟨scheduled, fun _ => fits⟩
  exact ⟨e, reached, of_decide_eq_true both, encoder_slots reached⟩

/-- Each of two inputs fits into the cache, both do not. -/
theorem twoImages_slots : ∃ e, Reaches imageConfig [.schedule, .add twoImages] e ∧
    e.scheduler.encoderCacheManager.numFreeSlots = -2 :=
  Run.exists_of_execute (by decide +kernel)

end

end Pipeline
end Vllm.V1
