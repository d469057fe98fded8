import Mathlib

/-!
Two lists that stand for one list of pairs, and from which a pair is taken by erasing its first component from the
one and its second component from the other. The other pairs survive if, between the two places, the components that
are shifted past each other are the same.
-/

namespace Vllm

section
variable {α β : Type}

/-- The second components from `b'` on are shifted, up to `b`: where they change, the first component has to be `a`. -/
def Shifts (a : α) (b : β) : β → List (α × β) → Prop
  | _, [] => True
  | b', p :: rest => (b' ≠ p.2 → p.1 = a) ∧ (p.2 ≠ b → Shifts a b p.2 rest)

variable [DecidableEq α] [DecidableEq β]

/-- Either component is erased where it is first found; in between, the pairs are shifted. -/
def Separable (a : α) (b : β) : List (α × β) → Prop
  | [] => True
  | p :: rest =>
    if p.1 = a then if p.2 = b then True else Shifts a b p.2 rest
    else if p.2 = b then Shifts b a p.1 (rest.map Prod.swap) else Separable a b rest

instance decideShifts (a : α) (b b' : β) (pairs : List (α × β)) : Decidable (Shifts a b b' pairs) := by
  induction pairs generalizing b' with
  | nil => exact isTrue trivial
  | cons p rest ih =>
    have := ih
    unfold Shifts
    infer_instance

instance decideSeparable (a : α) (b : β) (pairs : List (α × β)) : Decidable (Separable a b pairs) := by
  induction pairs with
  | nil => exact isTrue trivial
  | cons p rest ih =>
    have := ih
    unfold Separable
    infer_instance

variable {a : α} {b b' : β} {pairs : List (α × β)}

omit [DecidableEq α] [DecidableEq β] in
theorem zip_fst_snd (pairs : List (α × β)) : (pairs.map Prod.fst).zip (pairs.map Prod.snd) = pairs :=
  (List.zip_of_prod rfl rfl).symm

omit [DecidableEq α] in
/-- The pairs after the second component `b'` has lost its partner `a` and `b` is erased. -/
theorem shifts_perm (shifts : Shifts a b b' pairs) (other : b' ≠ b) (there : b ∈ pairs.map Prod.snd) :
    ((a, b) :: (pairs.map Prod.fst).zip (b' :: (pairs.map Prod.snd).erase b)).Perm ((a, b') :: pairs) := by
  induction pairs generalizing b' with
  | nil => cases there
  | cons p rest ih =>
    obtain ⟨x, y⟩ := p
    obtain ⟨changed, later⟩ := shifts
    rw [List.map_cons, List.map_cons, List.zip_cons_cons]
    by_cases last : y = b
    · subst last
      rw [List.erase_cons_head, zip_fst_snd]
      obtain rfl : x = a := changed other
      exact List.Perm.swap _ _ _
    · rw [List.erase_cons_tail (by simpa using last)]
      have there : b ∈ rest.map Prod.snd := by
        rcases List.mem_cons.mp there with rfl | there
        · exact absurd rfl last
        · exact there
      refine (List.Perm.swap _ _ _).trans (((ih (later last) last there).cons _).trans ?_)
      by_cases same : b' = y
      · subst same
        exact List.Perm.swap _ _ _
      · obtain rfl : x = a := changed same
        exact List.Perm.refl _

omit [DecidableEq β] in
/-- The same for a first component `a'` that has lost its partner. -/
theorem shifts_swap_perm {a' : α} (shifts : Shifts b a a' (pairs.map Prod.swap)) (other : a' ≠ a)
    (there : a ∈ pairs.map Prod.fst) :
    ((a, b) :: (a' :: (pairs.map Prod.fst).erase a).zip (pairs.map Prod.snd)).Perm ((a', b) :: pairs) := by
  have fst : (pairs.map Prod.swap).map Prod.fst = pairs.map Prod.snd := by
    rw [List.map_map]
    rfl
  have snd : (pairs.map Prod.swap).map Prod.snd = pairs.map Prod.fst := by
    rw [List.map_map]
    rfl
  have swapped := (shifts_perm shifts other (snd ▸ there)).map Prod.swap
  rw [fst, snd, List.map_cons, List.map_cons, List.zip_swap, List.map_map] at swapped
  simpa using swapped

theorem separable_perm (separable : Separable a b pairs) (there : (a, b) ∈ pairs) :
    ((a, b) :: ((pairs.map Prod.fst).erase a).zip ((pairs.map Prod.snd).erase b)).Perm pairs := by
  induction pairs with
  | nil => cases there
  | cons p rest ih =>
    obtain ⟨x, y⟩ := p
    unfold Separable at separable
    rw [List.map_cons, List.map_cons]
    by_cases first : x = a
    · subst first
      rw [if_pos rfl] at separable
      rw [List.erase_cons_head]
      by_cases second : y = b
      · subst second
        rw [List.erase_cons_head, zip_fst_snd]
      · rw [if_neg second] at separable
        rw [List.erase_cons_tail (by simpa using second)]
        have later : (x, b) ∈ rest := (List.mem_cons.mp there).resolve_left fun same => second (Prod.mk.inj same).2.symm
        exact shifts_perm separable second (List.mem_map_of_mem later)
    · rw [if_neg first] at separable
      have later : (a, b) ∈ rest := (List.mem_cons.mp there).resolve_left fun same => first (Prod.mk.inj same).1.symm
      rw [List.erase_cons_tail (by simpa using first)]
      by_cases second : y = b
      · subst second
        rw [if_pos rfl] at separable
        rw [List.erase_cons_head]
        exact shifts_swap_perm separable first (List.mem_map_of_mem later)
      · rw [if_neg second] at separable
        rw [List.erase_cons_tail (by simpa using second), List.zip_cons_cons]
        exact (List.Perm.swap _ _ _).trans ((ih separable later).cons _)

end

section
variable {α β : Type} [DecidableEq α] [LinearOrder β] {a : α} {b b' : β} {pairs : List (α × β)}

omit [DecidableEq α] in
theorem shifts_of_perm (sorted : (b' :: pairs.map Prod.snd).Pairwise (· ≤ ·)) (other : b' ≠ b)
    (there : b ∈ pairs.map Prod.snd)
    (perm : ((a, b) :: (pairs.map Prod.fst).zip (b' :: (pairs.map Prod.snd).erase b)).Perm ((a, b') :: pairs)) :
    Shifts a b b' pairs := by
  induction pairs generalizing b' with
  | nil => cases there
  | cons p rest ih =>
    obtain ⟨x, y⟩ := p
    rw [List.map_cons, List.map_cons, List.zip_cons_cons] at perm
    rw [List.map_cons, List.pairwise_cons, List.pairwise_cons] at sorted
    obtain ⟨below, above, ordered⟩ := sorted
    -- a second component that changes is not seen again
    have changed : b' ≠ y → x = a := by
      intro change
      have gone : ∀ z, (z, b') ∈ (x, y) :: rest → False := by
        intro z member
        rcases List.mem_cons.mp member with same | member
        · exact change (Prod.mk.inj same).2
        · have low := above b' (List.mem_map_of_mem (f := Prod.snd) member)
          exact change (le_antisymm (below y List.mem_cons_self) low)
      have member : (x, b') ∈ (a, b') :: (x, y) :: rest := perm.subset (List.mem_cons_of_mem _ List.mem_cons_self)
      rcases List.mem_cons.mp member with same | member
      · exact (Prod.mk.inj same).1
      · exact (gone x member).elim
    refine ⟨changed, fun later => ?_⟩
    have there : b ∈ rest.map Prod.snd := by
      rcases List.mem_cons.mp there with rfl | there
      · exact absurd rfl later
      · exact there
    refine ih (List.pairwise_cons.mpr ⟨above, ordered⟩) later there ?_
    have tail : (y :: rest.map Prod.snd).erase b = y :: (rest.map Prod.snd).erase b :=
      List.erase_cons_tail (by simpa using later)
    rw [tail] at perm
    have perm := (List.Perm.swap _ _ _).trans perm
    by_cases same : b' = y
    · subst same
      exact (perm.trans (List.Perm.swap _ _ _)).cons_inv
    · obtain rfl := changed same
      exact perm.cons_inv

omit [DecidableEq α] in
/-- A first component that is shifted past smaller second ones is the one looked for. -/
theorem shifts_swap_of_sorted {a' : α} (sorted : (pairs.map Prod.snd).Pairwise (· ≤ ·))
    (least : ∀ y ∈ pairs.map Prod.snd, b ≤ y) (there : (a, b) ∈ pairs) : Shifts b a a' (pairs.map Prod.swap) := by
  induction pairs generalizing a' with
  | nil => cases there
  | cons p rest ih =>
    obtain ⟨x, y⟩ := p
    rw [List.map_cons, List.pairwise_cons] at sorted
    refine ⟨fun _ => ?_, fun later => ?_⟩
    · rcases List.mem_cons.mp there with same | there
      · exact (Prod.mk.inj same).2.symm
      · exact le_antisymm (sorted.1 b (List.mem_map_of_mem (f := Prod.snd) there)) (least y List.mem_cons_self)
    · refine ih sorted.2 (fun y member => least y (List.mem_cons_of_mem _ member)) ?_
      rcases List.mem_cons.mp there with same | there
      · exact absurd (Prod.mk.inj same).1.symm later
      · exact there

/-- With the second components in order, the pairs survive only if they are the same in between. -/
theorem separable_iff (sorted : (pairs.map Prod.snd).Pairwise (· ≤ ·)) (there : (a, b) ∈ pairs) :
    Separable a b pairs ↔
      ((a, b) :: ((pairs.map Prod.fst).erase a).zip ((pairs.map Prod.snd).erase b)).Perm pairs := by
  refine ⟨fun separable => separable_perm separable there, fun perm => ?_⟩
  induction pairs with
  | nil => cases there
  | cons p rest ih =>
    obtain ⟨x, y⟩ := p
    unfold Separable
    rw [List.map_cons, List.map_cons] at perm
    by_cases first : x = a
    · subst first
      rw [if_pos rfl]
      by_cases second : y = b
      · rw [if_pos second]
        trivial
      · rw [if_neg second]
        rw [List.erase_cons_head, List.erase_cons_tail (by simpa using second)] at perm
        have later : (x, b) ∈ rest := (List.mem_cons.mp there).resolve_left fun same => second (Prod.mk.inj same).2.symm
        exact shifts_of_perm sorted second (List.mem_map_of_mem later) perm
    · rw [if_neg first]
      have later : (a, b) ∈ rest := (List.mem_cons.mp there).resolve_left fun same => first (Prod.mk.inj same).1.symm
      have ordered := List.pairwise_cons.mp sorted
      by_cases second : y = b
      · subst second
        rw [if_pos rfl]
        exact shifts_swap_of_sorted ordered.2 ordered.1 later
      · rw [if_neg second]
        rw [List.erase_cons_tail (by simpa using first), List.erase_cons_tail (by simpa using second),
          List.zip_cons_cons] at perm
        exact ih ordered.2 later ((List.Perm.swap _ _ _).trans perm).cons_inv

end
end Vllm
