import Mathlib

/-!
Reuse distances of a sequence of requests, each a list of the things it accesses: how many
requests back the latest earlier access to the same thing is. Requests stand latest first.
-/

namespace Vllm.ReuseDistance

variable {α : Type} [DecidableEq α] {a b : α} {request : List α} {requests earlier : List (List α)}

def lastRequest (a : α) : List (List α) → Option ℕ
  | [] => none
  | request :: earlier => if a ∈ request then some (earlier.length + 1) else lastRequest a earlier

/-- How far an access after the requests `earlier` is from the latest one to the same thing. -/
def reuse (earlier : List (List α)) (a : α) : Option ℕ :=
  (lastRequest a earlier).map fun last => earlier.length + 1 - last

def reuses : List (List α) → List ℕ
  | [] => []
  | request :: earlier => request.filterMap (reuse earlier) ++ reuses earlier

theorem lastRequest_eq_none : lastRequest a requests = none ↔ a ∉ requests.flatten := by
  induction requests with
  | nil => simp [lastRequest]
  | cons request earlier ih =>
    unfold lastRequest
    by_cases here : a ∈ request
    · simp [here]
    · simp [here, ih]

theorem reuse_eq_none : reuse earlier a = none ↔ a ∉ earlier.flatten := by
  rw [reuse, Option.map_eq_none_iff, lastRequest_eq_none]

theorem lastRequest_cons_cons (b : α) (different : a ≠ b) :
    lastRequest a ((b :: request) :: earlier) = lastRequest a (request :: earlier) := by
  simp [lastRequest, different]

theorem reuses_cons_cons (a : α) (request : List α) (earlier : List (List α)) :
    reuses ((a :: request) :: earlier) =
      (reuse earlier a).toList ++ reuses (request :: earlier) := by
  unfold reuses
  cases found : reuse earlier a with
  | none => rw [List.filterMap_cons_none found, Option.toList_none, List.nil_append]
  | some d => rw [List.filterMap_cons_some found]; rfl

/-- One request adds to the reuses what it does not add to the distinct things. -/
theorem request_reuses (nodup : request.Nodup) (earlier : List (List α)) :
    (request.filterMap (reuse earlier)).length + (request ++ earlier.flatten).toFinset.card =
      request.length + earlier.flatten.toFinset.card := by
  induction request with
  | nil => simp
  | cons a rest ih =>
    obtain ⟨new, nodup⟩ := List.nodup_cons.mp nodup
    have others := ih nodup
    rw [List.cons_append, List.toFinset_cons, List.length_cons]
    by_cases known : a ∈ earlier.flatten
    · have member : a ∈ (rest ++ earlier.flatten).toFinset := by simp [known]
      obtain ⟨d, found⟩ := Option.ne_none_iff_exists'.mp (mt reuse_eq_none.mp (not_not.mpr known))
      rw [List.filterMap_cons_some found, Finset.insert_eq_of_mem member, List.length_cons]
      omega
    · have absent : a ∉ (rest ++ earlier.flatten).toFinset := by
        rw [List.mem_toFinset, List.mem_append]
        exact fun either => either.elim new known
      rw [List.filterMap_cons_none (reuse_eq_none.mpr known), Finset.card_insert_of_notMem absent]
      omega

/-- Each access is the first one to its thing or a reuse. -/
theorem reuses_add_distinct (nodup : ∀ request ∈ requests, request.Nodup) :
    (reuses requests).length + requests.flatten.toFinset.card = requests.flatten.length := by
  induction requests with
  | nil => rfl
  | cons request earlier ih =>
    have first := request_reuses (nodup request List.mem_cons_self) earlier
    have others := ih fun r member => nodup r (List.mem_cons_of_mem request member)
    rw [reuses, List.length_append, List.flatten_cons, List.length_append]
    omega

end Vllm.ReuseDistance
