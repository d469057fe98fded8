import Mathlib

/-!
A running maximum that only a strictly greater score replaces: over increasing candidates it ends
at the least of the best ones.
-/

namespace Vllm

variable {α β : Type} [LinearOrder α] [LinearOrder β] {f : α → β} {candidates : List α} {a : α}

/-- The best candidate so far, with its score, against the others. -/
def runningMax (f : α → β) : List α → α → β → α
  | [], best, _ => best
  | a :: rest, best, score =>
    if score < f a then runningMax f rest a (f a) else runningMax f rest best score

/-- The least candidate with the highest score. -/
def LeastMax (f : α → β) (candidates : List α) (a : α) : Prop :=
  IsLeast {a | a ∈ candidates ∧ ∀ c ∈ candidates, f c ≤ f a} a

theorem LeastMax.replace {a : α} {b : α} (least : LeastMax f (a :: candidates) b) {best : α}
    (beaten : f best < f a) : LeastMax f (best :: a :: candidates) b := by
  obtain ⟨⟨member, top⟩, below⟩ := least
  have above : f best < f b := beaten.trans_le (top a List.mem_cons_self)
  refine ⟨⟨List.mem_cons_of_mem best member, ?_⟩, ?_⟩
  · intro c among
    rcases List.mem_cons.mp among with rfl | among
    · exact above.le
    · exact top c among
  · rintro c ⟨among, best'⟩
    rcases List.mem_cons.mp among with rfl | among
    · exact absurd (best' b (List.mem_cons_of_mem c member)) (not_le.mpr above)
    · exact below ⟨among, fun d other => best' d (List.mem_cons_of_mem _ other)⟩

theorem LeastMax.keep {best b : α} (least : LeastMax f (best :: candidates) b)
    (first : best < a) (enough : f a ≤ f best) : LeastMax f (best :: a :: candidates) b := by
  obtain ⟨⟨member, top⟩, below⟩ := least
  have wider : ∀ c, c ∈ best :: candidates → c ∈ best :: a :: candidates := by
    intro c among
    rcases List.mem_cons.mp among with rfl | among
    · exact List.mem_cons_self
    · exact List.mem_cons_of_mem _ (List.mem_cons_of_mem _ among)
  refine ⟨⟨wider b member, ?_⟩, ?_⟩
  · intro c among
    rcases List.mem_cons.mp among with rfl | among
    · exact top c List.mem_cons_self
    · rcases List.mem_cons.mp among with rfl | among
      · exact enough.trans (top best List.mem_cons_self)
      · exact top c (List.mem_cons_of_mem best among)
  · rintro c ⟨among, best'⟩
    have narrow : c ∈ best :: candidates → b ≤ c := fun inside =>
      below ⟨inside, fun d other => best' d (wider d other)⟩
    rcases List.mem_cons.mp among with rfl | among
    · exact narrow List.mem_cons_self
    · rcases List.mem_cons.mp among with rfl | among
      · -- `a` is best only together with `best`, which comes before it
        have also : ∀ d ∈ best :: candidates, f d ≤ f best := fun d other =>
          (best' d (wider d other)).trans enough
        exact (below ⟨List.mem_cons_self, also⟩).trans first.le
      · exact narrow (List.mem_cons_of_mem best among)

theorem runningMax_least (sorted : (a :: candidates).Pairwise (· < ·)) :
    LeastMax f (a :: candidates) (runningMax f candidates a (f a)) := by
  induction candidates generalizing a with
  | nil =>
    refine ⟨⟨List.mem_cons_self, fun c among => ?_⟩, fun c among => ?_⟩
    · rw [List.mem_singleton.mp among, runningMax]
    · rw [List.mem_singleton.mp among.1, runningMax]
  | cons b rest ih =>
    obtain ⟨first, others⟩ := List.pairwise_cons.mp sorted
    unfold runningMax
    by_cases better : f a < f b
    · rw [if_pos better]
      exact (ih others).replace better
    · rw [if_neg better]
      have short : (a :: rest).Pairwise (· < ·) :=
        List.pairwise_cons.mpr ⟨fun c among => first c (List.mem_cons_of_mem b among),
          (List.pairwise_cons.mp others).2⟩
      exact (ih short).keep (first b List.mem_cons_self) (not_lt.mp better)

omit [LinearOrder α] in
/-- A running maximum that starts below every score forgets where it started. -/
theorem runningMax_start {low : β} (below : low < f a) (fallback : α) :
    runningMax f (a :: candidates) fallback low = runningMax f candidates a (f a) := by
  rw [runningMax, if_pos below]

end Vllm
