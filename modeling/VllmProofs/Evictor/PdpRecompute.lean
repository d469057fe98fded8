import VllmProofs.Evictor.PdpLearning

/-!
When `PDPEvictor` recomputes its protecting distance: at the end of a batch that lands on a multiple
of the interval. A batch that steps over a multiple does not.
-/

namespace Vllm.Evictor.PDPEvictor
open Exec

/-- The call ends by recomputing the protecting distance, whatever that does. -/
def Event.Recomputes (e : Event) : Prop :=
  match e.op with
  | .observe hashes _ hits =>
    ∃ u, ∀ recompute, observeCacheAccessesWith recompute hashes hits e.before = recompute u
  | _ => False

/-- The total passes a multiple of the interval during the call. -/
def Event.Passes (interval : ℤ) (e : Event) : Prop :=
  ∃ k : ℤ, e.before.totalObservedAccesses < k * interval ∧
    k * interval ≤ (after e.op.call e.before).totalObservedAccesses

/-- The call gets to all of its hashes. -/
def Event.completes (e : Event) : Bool :=
  match e.op with
  | .observe hashes _ hits => decide (Complete hits hashes)
  | _ => true

/-- The call stays below the next multiple of the interval, or completes on one. -/
def Event.Lands (interval : ℤ) (e : Event) : Prop :=
  e.before.totalObservedAccesses % interval + e.accesses < interval ∨
    e.completes = true ∧ (e.before.totalObservedAccesses + e.accesses) % interval = 0

instance (interval : ℤ) (e : Event) : Decidable (e.Lands interval) :=
  inferInstanceAs (Decidable (_ ∨ _))

section
variable {config : PdpSettings} {history : List Event} {s : PDPEvictor} {e : Event}

theorem run_before (later earlier : List Event) (split : history = later ++ e :: earlier)
    (run : Run Call (PDPEvictor.init config) history s) :
    Run Call (PDPEvictor.init config) earlier e.before := by
  subst split
  obtain ⟨u, v, before, step⟩ := run.split
  exact step.1 ▸ before

/-- A total that is `total % n` past a multiple of `n` passes the next one when it grows by the
rest. -/
theorem passes_iff {n : ℤ} (positive : 1 ≤ n) (total grown : ℤ) :
    (∃ k : ℤ, total < k * n ∧ k * n ≤ grown) ↔ ¬total % n + (grown - total) < n := by
  have split_ := Int.emod_add_mul_ediv total n
  have small := Int.emod_lt_of_pos total (by omega : 0 < n)
  have least := Int.emod_nonneg total (by omega : n ≠ 0)
  constructor
  · rintro ⟨k, above, below⟩ within
    have more : total / n + 1 ≤ k := by
      rw [Int.add_one_le_iff]
      exact Int.ediv_lt_of_lt_mul (by omega) above
    have := mul_le_mul_of_nonneg_right more (by omega : 0 ≤ n)
    rw [add_mul, mul_comm (total / n)] at this
    omega
  · intro beyond
    refine ⟨total / n + 1, ?_, ?_⟩
    · rw [add_mul, mul_comm (total / n)]
      omega
    · rw [add_mul, mul_comm (total / n)]
      omega

theorem call_total (run : Run Call (PDPEvictor.init config) history e.before) :
    (after e.op.call e.before).totalObservedAccesses = e.before.totalObservedAccesses + e.accesses := by
  have next := (run_learnt (.call run ⟨rfl, rfl⟩)).2
  rw [next, (run_learnt run).2, accesses, accesses, List.map_cons, List.sum_cons]
  push_cast
  exact add_comm _ _

theorem recomputes_iff {h : PrefixHash} {rest : List PrefixHash} {hint : Option CacheHint}
    {hits : Option (List Bool)} (kind : e.op = .observe (h :: rest) hint hits)
    (run : Run Call (PDPEvictor.init config) history e.before) : e.Recomputes ↔
      e.completes = true ∧ (e.before.totalObservedAccesses + e.accesses) % config.clamp.recomputeInterval = 0 := by
  obtain ⟨u, now, sum, -, outcome⟩ := batch_learns hits (run_learnt run).1 (List.cons_ne_nil h rest)
  have counts : e.accesses = counted hits (h :: rest) := by
    unfold Event.accesses
    rw [kind]
  have completes : e.completes = true ↔ Complete hits (h :: rest) := by
    unfold Event.completes
    rw [kind]
    exact decide_eq_true_iff
  have recomputes : e.Recomputes ↔ ∃ u, ∀ recompute,
      observeCacheAccessesWith recompute (h :: rest) hits e.before = recompute u := by
    unfold Event.Recomputes
    rw [kind]
  rw [recomputes, completes, counts, ← sum]
  rcases outcome with ⟨complete, ends⟩ | ⟨stuck, ends⟩
  · by_cases due : u.totalObservedAccesses % config.clamp.recomputeInterval = 0
    · exact iff_of_true ⟨u, fun recompute => (ends recompute).trans (if_pos due)⟩ ⟨complete, due⟩
    · refine iff_of_false ?_ fun both => due both.2
      rintro ⟨v, calls⟩
      have other := (ends (throw .indexError)).symm.trans (calls _)
      rw [if_neg due] at other
      cases other
  · refine iff_of_false ?_ fun both => stuck both.1
    rintro ⟨v, calls⟩
    have other := (ends (pure ())).symm.trans (calls _)
    cases other

theorem recomputes_observes (recomputes : e.Recomputes) :
    ∃ h rest hint hits, e.op = .observe (h :: rest) hint hits := by
  unfold Event.Recomputes at recomputes
  split at recomputes
  · rename_i hashes hint hits kind
    cases hashes with
    | nil =>
      obtain ⟨u, calls⟩ := recomputes
      have other := calls (throw .indexError)
      cases other
    | cons h rest => exact ⟨h, rest, hint, hits, kind⟩
  · exact recomputes.elim

theorem accesses_other (other : ∀ h rest hint hits, e.op ≠ .observe (h :: rest) hint hits) :
    e.accesses = 0 := by
  have same := (requests_other (s := e.before) other []).2
  simpa [accesses] using same

theorem passes_recomputes_iff (run : Run Call (PDPEvictor.init config) history e.before) :
    (e.Passes config.clamp.recomputeInterval → e.Recomputes) ↔ e.Lands config.clamp.recomputeInterval := by
  have positive := config.clamp_positive.2.1
  have passes := passes_iff positive e.before.totalObservedAccesses
    (after e.op.call e.before).totalObservedAccesses
  rw [call_total run, add_sub_cancel_left] at passes
  unfold Event.Passes Event.Lands
  rw [call_total run, passes]
  by_cases observation : ∃ h rest hint hits, e.op = .observe (h :: rest) hint hits
  · obtain ⟨h, rest, hint, hits, kind⟩ := observation
    rw [recomputes_iff kind run]
    exact Decidable.or_iff_not_imp_left.symm
  · have none := accesses_other fun h rest hint hits same => observation ⟨h, rest, hint, hits, same⟩
    have below := Int.emod_lt_of_pos e.before.totalObservedAccesses (by omega : 0 < config.clamp.recomputeInterval)
    rw [none]
    exact iff_of_true (fun beyond => absurd (by simpa using below) beyond) (Or.inl (by simpa using below))

/-- From a multiple of the interval on, calls that land without recomputing stay below the next. -/
theorem accesses_lt {later earlier : List Event} (split : history = later ++ earlier)
    (run : Run Call (PDPEvictor.init config) history s)
    (start : (accesses earlier : ℤ) % config.clamp.recomputeInterval = 0)
    (lands : ∀ e ∈ later, e.Lands config.clamp.recomputeInterval)
    (none : ∀ e ∈ later, ¬e.Recomputes) : (accesses later : ℤ) < config.clamp.recomputeInterval := by
  have positive := config.clamp_positive.2.1
  induction later generalizing history s with
  | nil => exact positive
  | cons e rest ih =>
    have before := run_before [] (rest ++ earlier) split run
    have total := (run_learnt before).2
    have below := ih rfl before (fun e' member => lands e' (List.mem_cons_of_mem e member))
      fun e' member => none e' (List.mem_cons_of_mem e member)
    have sum : accesses (e :: rest) = e.accesses + accesses rest := by
      rw [accesses, List.map_cons, List.sum_cons, accesses]
    have parts : (accesses (rest ++ earlier) : ℤ) = accesses rest + accesses earlier := by
      rw [accesses, List.map_append, List.sum_append]
      exact Nat.cast_add _ _
    have residue : e.before.totalObservedAccesses % config.clamp.recomputeInterval = accesses rest := by
      rw [total, parts, Int.add_emod, start, add_zero, Int.emod_emod, Int.emod_eq_of_lt (by omega) below]
    rw [sum]
    by_cases observation : ∃ h rest hint hits, e.op = .observe (h :: rest) hint hits
    · obtain ⟨h, others, hint, hits, kind⟩ := observation
      rcases lands e List.mem_cons_self with within | lands'
      · push_cast
        omega
      · exact absurd ((recomputes_iff kind before).mpr lands') (none e List.mem_cons_self)
    · have quiet := accesses_other fun h rest hint hits same => observation ⟨h, rest, hint, hits, same⟩
      push_cast
      omega

/-- In a run each call that passes a multiple of the interval recomputes just when each call lands;
and then, from one recomputation to the next, fewer accesses than the interval are observed before
the last batch. -/
theorem recomputes_in_time (config : PdpSettings) (history : List Event) (s : PDPEvictor)
    (run : Run Call (PDPEvictor.init config) history s) :
    ((∀ e ∈ history, e.Passes config.clamp.recomputeInterval → e.Recomputes) ↔
      ∀ e ∈ history, e.Lands config.clamp.recomputeInterval) ∧
    ((∀ e ∈ history, e.Lands config.clamp.recomputeInterval) →
      ∀ newest e later earlier, history = newest ++ e :: (later ++ earlier) →
        (earlier = [] ∨ ∃ r rest, earlier = r :: rest ∧ r.Recomputes) →
        (∀ e' ∈ later, ¬e'.Recomputes) →
        (accesses (e :: later) : ℤ) < config.clamp.recomputeInterval + e.accesses) := by
  constructor
  · refine forall₂_congr fun e member => ?_
    obtain ⟨later, earlier, split⟩ := List.append_of_mem member
    exact passes_recomputes_iff (run_before later earlier split run)
  · intro lands newest e later earlier split start none
    have before := run_before newest (later ++ earlier) split run
    have multiple : (accesses earlier : ℤ) % config.clamp.recomputeInterval = 0 := by
      rcases start with rfl | ⟨r, rest, rfl, recomputes⟩
      · rfl
      · have prior : Run Call (PDPEvictor.init config) rest r.before :=
          run_before later rest rfl before
        obtain ⟨h, others, hint, hits, kind⟩ := recomputes_observes recomputes
        have due := ((recomputes_iff kind prior).mp recomputes).2
        rw [(run_learnt prior).2] at due
        rw [accesses, List.map_cons, List.sum_cons, ← accesses]
        push_cast
        rwa [add_comm]
    have within := accesses_lt rfl before multiple (fun e' member => lands e' (by
      rw [split]
      exact List.mem_append_right _ (List.mem_cons_of_mem e (List.mem_append_left _ member)))) none
    have sum : accesses (e :: later) = e.accesses + accesses later := by
      rw [accesses, List.map_cons, List.sum_cons, accesses]
    rw [sum]
    push_cast
    omega

def everyTwo : PdpSettings := { recomputeInterval := 2 }

def pairs : List Op := [.observe [12, 13] none none, .observe [11, 12] none none]

theorem recomputes_in_time_pairs : (⟨execute everyTwo [.observe [11, 12] none none],
    .observe [12, 13] none none⟩ : Event).Recomputes := by
  have lands : ∀ e ∈ events everyTwo pairs, e.Lands everyTwo.clamp.recomputeInterval := by
    decide +kernel
  have all := (recomputes_in_time everyTwo _ _ (execute_call everyTwo pairs)).1.mpr lands
  have total : (execute everyTwo [.observe [11, 12] none none]).totalObservedAccesses = 2 ∧
      (execute everyTwo pairs).totalObservedAccesses = 4 := by
    decide +kernel
  refine all _ List.mem_cons_self ⟨2, ?_, ?_⟩
  · show (execute everyTwo [.observe [11, 12] none none]).totalObservedAccesses < _
    rw [total.1]
    decide
  · show _ ≤ (execute everyTwo pairs).totalObservedAccesses
    rw [total.2]
    decide

/-- A batch of two hashes after one of one hash. -/
def steppingOver : List Op := [.observe [12, 13] none none, .observe [11] none none]

/-- The total goes from 1 to 3 with an interval of 2, and nothing is recomputed. -/
theorem steppingOver_not_recomputed : ¬ ∀ (config : PdpSettings) (history : List Event) (s : PDPEvictor),
    Run Call (PDPEvictor.init config) history s →
    ∀ e ∈ history, e.Passes config.clamp.recomputeInterval → e.Recomputes := by
  intro claim
  have total : (execute everyTwo [.observe [11] none none]).totalObservedAccesses = 1 ∧
      (execute everyTwo steppingOver).totalObservedAccesses = 3 := by
    decide +kernel
  have recomputes := claim everyTwo _ _ (execute_call everyTwo steppingOver)
    ⟨execute everyTwo [.observe [11] none none], .observe [12, 13] none none⟩ List.mem_cons_self
    ⟨1, by
      show (execute everyTwo [.observe [11] none none]).totalObservedAccesses < _
      rw [total.1]
      decide, by
      show _ ≤ (execute everyTwo steppingOver).totalObservedAccesses
      rw [total.2]
      decide⟩
  have due := ((recomputes_iff rfl (execute_call everyTwo [.observe [11] none none])).mp recomputes).2
  exact absurd due (by decide +kernel)

end
end Vllm.Evictor.PDPEvictor
