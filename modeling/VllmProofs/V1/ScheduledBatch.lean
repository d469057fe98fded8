import VllmProofs.V1.SchedulerHistory

/-!
What a pass of `schedule` has booked at any time: whom it has given tokens, how many, and how many are
left.
-/

namespace Vllm.V1
open Exec

def Pass.scheduledRefs (p : Pass) : List RequestRef :=
  p.scheduledNewReqs ++ p.scheduledResumedReqs ++ p.scheduledRunningReqs

theorem Pass.scheduledRefs_giveRunning (p : Pass) (ref : RequestRef) (request : Request) (plan : EncoderPlan)
    (blocks : List BlockId) : (p.giveRunning ref request plan blocks).scheduledRefs.Perm (ref :: p.scheduledRefs) := by
  show (p.scheduledNewReqs ++ p.scheduledResumedReqs ++ (p.scheduledRunningReqs ++ [ref])).Perm _
  rw [← List.append_assoc]
  exact List.perm_append_singleton ref _

variable {plan : EncoderPlan}

theorem Pass.scheduledRefs_giveWaiting {ref : RequestRef} {request : Request} {maxLoras : Option ℕ}
    {blocks : List BlockId} (p : Pass) (status : request.status = .waiting ∨ request.status = .preempted) :
    (p.giveWaiting ref request maxLoras plan blocks).scheduledRefs.Perm (ref :: p.scheduledRefs) := by
  unfold scheduledRefs giveWaiting
  rcases status with new | resumed
  · rw [if_pos new, if_neg (by rw [new]; decide)]
    show (p.scheduledNewReqs ++ [ref] ++ p.scheduledResumedReqs ++ p.scheduledRunningReqs).Perm _
    rw [List.append_assoc, List.append_assoc, List.singleton_append, List.append_assoc]
    exact List.perm_middle
  · rw [if_pos resumed, if_neg (by rw [resumed]; decide)]
    show (p.scheduledNewReqs ++ (p.scheduledResumedReqs ++ [ref]) ++ p.scheduledRunningReqs).Perm _
    rw [← List.append_assoc, List.append_assoc _ [ref], List.singleton_append]
    exact List.perm_middle

namespace Scheduler

variable {s t : Scheduler} {ref : RequestRef} {p p' : Pass}

structure Booked (s : Scheduler) (p : Pass) : Prop where
  nodup : p.scheduledRefs.Nodup
  passed : ∀ ref ∈ p.scheduledRefs, ref ∈ s.running.take p.reqIndex
  ids : ∀ id, id ∈ p.numScheduledTokens.keys ↔ ∃ ref ∈ p.scheduledRefs, (s.objects ref).requestId = id
  budget : p.numScheduledTokens.values.sum + p.tokenBudget = s.maxNumScheduledTokens

theorem booked_start (s : Scheduler) : Booked s s.startPass where
  nodup := List.nodup_nil
  passed := nofun
  ids id := by simp [startPass, Pass.scheduledRefs, Dict.keys]
  budget := Nat.zero_add _

theorem Booked.runs (booked : Booked s p) (member : ref ∈ p.scheduledRefs) : ref ∈ s.running :=
  List.mem_of_mem_take (booked.passed ref member)

theorem Booked.withinRunning (booked : Booked s p) : p.scheduledRefs.length ≤ s.running.length :=
  (List.subperm_of_subset booked.nodup fun _ member => booked.runs member).length_le

theorem Booked.keep (booked : Booked s p) (refs : p'.scheduledRefs = p.scheduledRefs)
    (numScheduledTokens : p'.numScheduledTokens = p.numScheduledTokens) (tokenBudget : p'.tokenBudget = p.tokenBudget)
    (maxNumScheduledTokens : t.maxNumScheduledTokens = s.maxNumScheduledTokens)
    (ids : ∀ ref, (t.objects ref).requestId = (s.objects ref).requestId)
    (places : (s.running.take p.reqIndex).Sublist (t.running.take p'.reqIndex)) : Booked t p' := by
  constructor
  · rw [refs]
    exact booked.nodup
  · intro ref member
    rw [refs] at member
    exact places.subset (booked.passed ref member)
  · intro id
    rw [numScheduledTokens, refs]
    simp only [ids]
    exact booked.ids id
  · rw [numScheduledTokens, tokenBudget, maxNumScheduledTokens]
    exact booked.budget

theorem values_sum (d : Dict RequestId ℕ) : d.values.sum = d.sum fun n => n := rfl

/-- One more request has got tokens. -/
theorem Booked.give {n : ℕ} (booked : Booked s p) (refs : p'.scheduledRefs.Perm (ref :: p.scheduledRefs))
    (numScheduledTokens : p'.numScheduledTokens = p.numScheduledTokens.insert (s.objects ref).requestId n)
    (tokenBudget : p'.tokenBudget = p.tokenBudget - n)
    (maxNumScheduledTokens : t.maxNumScheduledTokens = s.maxNumScheduledTokens)
    (ids : ∀ ref, (t.objects ref).requestId = (s.objects ref).requestId)
    (fresh : ∀ ref' ∈ p.scheduledRefs, (s.objects ref').requestId ≠ (s.objects ref).requestId)
    (enough : n ≤ p.tokenBudget)
    (places : (s.running.take p.reqIndex ++ [ref]).Sublist (t.running.take p'.reqIndex)) : Booked t p' := by
  have absent : p.numScheduledTokens.get? (s.objects ref).requestId = none := by
    cases found : p.numScheduledTokens.get? (s.objects ref).requestId with
    | none => rfl
    | some m =>
      obtain ⟨ref', member, same⟩ := (booked.ids _).mp (Dict.mem_keys_iff.mpr ⟨m, found⟩)
      exact absurd same (fresh ref' member)
  constructor
  · rw [refs.nodup_iff, List.nodup_cons]
    exact ⟨fun member => fresh ref member rfl, booked.nodup⟩
  · intro ref' member
    apply places.subset
    rw [List.mem_append, List.mem_singleton]
    rcases List.mem_cons.mp (refs.mem_iff.mp member) with new | old
    · exact Or.inr new
    · exact Or.inl (booked.passed ref' old)
  · intro id
    rw [Dict.mem_keys_iff, numScheduledTokens]
    simp only [ids, refs.mem_iff, List.mem_cons, exists_eq_or_imp, ← booked.ids id, Dict.mem_keys_iff, Dict.get?_insert]
    split
    · rename_i same
      simp [same]
    · rename_i other
      simp [Ne.symm other]
  · have total := booked.budget
    rw [values_sum] at total
    rw [values_sum, numScheduledTokens, Dict.sum_insert_of_none absent, tokenBudget, maxNumScheduledTokens]
    omega

theorem planInputs_within (cache : EncoderCacheManager) (request : Request) (c n i : ℕ)
    (ranges : List PlaceholderRange) (budget : ℕ) : (planInputs cache request c n i ranges budget).numNewTokens ≤ n := by
  induction ranges generalizing i budget with
  | nil => exact le_refl n
  | cons pos rest ih =>
    unfold planInputs
    split
    · exact le_refl n
    · rename_i before
      split
      · exact ih _ _
      · split
        · show pos.offset - c ≤ n
          omega
        · exact ih _ _

theorem tryScheduleEncoderInputs_within (s : Scheduler) (request : Request) (c n budget : ℕ) :
    (s.tryScheduleEncoderInputs request c n budget).numNewTokens ≤ n := by
  unfold tryScheduleEncoderInputs
  split
  · exact planInputs_within _ _ _ _ _ _ _
  · exact le_refl n

theorem RunAttempt.within (attempt : RunAttempt s p ref plan) :
    plan.numNewTokens ≤ numNewRunning p (s.objects ref) := by
  rw [attempt.planned]
  exact tryScheduleEncoderInputs_within _ _ _ _ _

theorem AdmitAttempt.within [TupleHash] {hits : List BlockId} {c n : ℕ} {looked : KVCacheManager}
    (attempt : AdmitAttempt s p ref hits c n plan looked) : plan.numNewTokens ≤ n := by
  rw [attempt.planned]
  exact tryScheduleEncoderInputs_within _ _ _ _ _

variable [TupleHash]

/-- The pass gives `ref` slots for `n` tokens, with the first `c` of its tokens computed. -/
inductive Gives (s : Scheduler) (p : Pass) : RequestRef → ℕ → ℕ → Prop
  | running {ref : RequestRef} {plan : EncoderPlan} {newBlocks : List BlockId} {manager : KVCacheManager}
      (attempt : RunAttempt s p ref plan)
      (got : KVCacheManager.allocateSlots (s.objects ref) plan.numNewTokens [] s.kvCacheManager =
        .ok (some newBlocks) manager) : Gives s p ref (s.objects ref).numComputedTokens plan.numNewTokens
  | waiting {ref : RequestRef} {hits newBlocks : List BlockId} {c n : ℕ} {plan : EncoderPlan}
      {looked manager : KVCacheManager} (attempt : AdmitAttempt s p ref hits c n plan looked)
      (got : KVCacheManager.allocateSlots (s.objects ref) plan.numNewTokens hits looked =
        .ok (some newBlocks) manager) : Gives s p ref c plan.numNewTokens

/-- `P` holds of every request when a call of `schedule` gives it tokens. -/
def AlwaysGives (P : Request → ℕ → ℕ → Prop) (s : Scheduler) : Prop :=
  ∀ u p, Moves s s.startPass u p → ∀ ref c n, Gives u p ref c n → P (u.objects ref) c n

omit [TupleHash] in
theorem Booked.fresh_running (booked : Booked s p) (queued : (putBack p s).Queued)
    (attempt : RunAttempt s p ref plan) :
    ∀ ref' ∈ p.scheduledRefs, (s.objects ref').requestId ≠ (s.objects ref).requestId := by
  intro ref' member same
  have nodup : s.running.Nodup := (List.nodup_append.mp queued.nodup).1
  obtain ⟨inside, here⟩ := List.getElem?_eq_some_iff.mp attempt.at_
  have equal : ref' = ref := queued.unique (List.mem_append_left _ (booked.runs member))
    (List.mem_append_left _ attempt.running) same
  rw [equal] at member
  obtain ⟨i, less, there⟩ := List.mem_take_iff_getElem.mp (booked.passed ref member)
  have index := (List.Nodup.getElem_inj_iff nodup).mp (there.trans here.symm)
  omega

omit [TupleHash] in
theorem WaitingTurn.waits (turn : WaitingTurn s p ref) : ref ∈ (putBack p s).waiting :=
  List.mem_append_right _ (List.mem_of_head? turn.head)

omit [TupleHash] in
theorem Booked.fresh_waiting (booked : Booked s p) (queued : (putBack p s).Queued) (turn : WaitingTurn s p ref) :
    ∀ ref' ∈ p.scheduledRefs, (s.objects ref').requestId ≠ (s.objects ref).requestId := by
  intro ref' member same
  have runs := booked.runs member
  have equal : ref' = ref := queued.unique (List.mem_append_left _ runs) (List.mem_append_right _ turn.waits) same
  rw [equal] at runs
  exact List.disjoint_of_nodup_append queued.nodup runs turn.waits

theorem Booked.move (serving : (putBack p s).Serving) (booked : Booked s p) (move : Move (s, p) (t, p')) :
    Booked t p' := by
  have ids : ∀ ref, (t.objects ref).requestId = (s.objects ref).requestId := fun ref => (move.evolves ref).requestId
  cases move with
  | skip passed =>
    apply booked.keep
    · rfl
    · rfl
    · rfl
    · rfl
    · exact ids
    · exact List.take_sublist_take_left (Nat.le_succ _)
  | recordLoras => exact booked.keep rfl rfl rfl rfl ids (List.Sublist.refl _)
  | setAside => exact booked.keep rfl rfl rfl rfl ids (List.Sublist.refl _)
  | lookup => exact booked.keep rfl rfl rfl rfl ids (List.Sublist.refl _)
  | @wake _ _ ref turn ready =>
    have same := turn.wake
    apply booked.keep rfl rfl rfl _ ids
    · rw [wake_running]
    · unfold wake
      split
      · rfl
      · rfl
  | preempt attempt lacks last freed =>
    apply booked.keep
    · rfl
    · rfl
    · rfl
    · rfl
    · exact ids
    · have inside := (List.getElem?_eq_some_iff.mp attempt.at_).1
      rw [last, List.length_append, List.length_singleton] at inside
      rw [last, List.take_append_of_le_length (Nat.le_of_lt_succ inside)]
      exact List.Sublist.refl _
  | @run _ _ ref plan newBlocks manager attempt got =>
    apply booked.give (n := plan.numNewTokens)
    · exact p.scheduledRefs_giveRunning _ _ _ _
    · rfl
    · rfl
    · rfl
    · exact ids
    · exact booked.fresh_running serving.queued attempt
    · exact attempt.within.trans (Nat.min_le_right _ _)
    · show (_ ++ [ref]).Sublist (List.take (p.reqIndex + 1) s.running)
      rw [List.take_add_one, attempt.at_]
      exact List.Sublist.refl _
  | @admitRequest _ _ ref hits newBlocks c n plan looked manager attempt status got =>
    have prepared := attempt.prepared serving.holding.sound serving.holding.blockSize
    apply booked.give (n := plan.numNewTokens)
    · exact p.scheduledRefs_giveWaiting status
    · rfl
    · rfl
    · rfl
    · exact ids
    · exact booked.fresh_waiting serving.queued attempt.toWaitingTurn
    · exact attempt.within.trans prepared.within.1
    · have ended := List.getElem?_eq_none_iff.mp attempt.ended
      show (_ ++ [ref]).Sublist (List.take (p.reqIndex + 1) (s.running ++ [ref]))
      rw [List.take_of_length_le ended, List.take_of_length_le]
      rw [List.length_append, List.length_singleton]
      exact Nat.succ_le_succ ended

theorem booked_moves (serving : s.Serving) (moves : Moves s s.startPass t p) : Booked t p :=
  moves.invariant (I := fun u q => Booked u q) (booked_start s) fun _ _ _ _ before booked move =>
    booked.move (serving.moves before) move

end Scheduler
end Vllm.V1
