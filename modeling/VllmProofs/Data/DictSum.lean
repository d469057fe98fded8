import VllmProofs.Data.Dict

/-!
Sums over the values of a dictionary, and how writing one key changes them.
-/

namespace Vllm.Dict

variable {K V : Type} [DecidableEq K] {d : Dict K V} {k : K} {v : V} {f : V → ℕ}

omit [DecidableEq K] in
/-- `sum(f(v) for v in d.values())` -/
def sum (f : V → ℕ) (d : Dict K V) : ℕ := (d.items.map fun x => f x.2).sum

theorem sum_insert_of_none (absent : d.get? k = none) : (d.insert k v).sum f = d.sum f + f v := by
  obtain ⟨xs, nodup⟩ := d
  simp only [get?, insert, sum] at absent ⊢
  clear nodup
  induction xs with
  | nil => simp [put]
  | cons x rest ih =>
    simp only [lookup] at absent
    split at absent
    · cases absent
    · rename_i different
      simp only [put, different, ↓reduceIte, List.map_cons, List.sum_cons, ih absent]
      omega

theorem sum_insert_of_some {w : V} (found : d.get? k = some w) :
    (d.insert k v).sum f + f w = d.sum f + f v := by
  obtain ⟨xs, nodup⟩ := d
  simp only [get?, insert, sum] at found ⊢
  clear nodup
  induction xs with
  | nil => cases found
  | cons x rest ih =>
    by_cases same : x.1 = k
    · simp only [lookup, same, ↓reduceIte, Option.some.injEq] at found
      subst found
      simp only [put, same, ↓reduceIte, List.map_cons, List.sum_cons]
      omega
    · simp only [lookup, same, ↓reduceIte] at found
      simp only [put, same, ↓reduceIte, List.map_cons, List.sum_cons]
      have rest := ih found
      omega

theorem sum_erase_of_some {w : V} (found : d.get? k = some w) :
    (d.erase k).sum f + f w = d.sum f := by
  obtain ⟨xs, nodup⟩ := d
  simp only [get?, erase, sum] at found ⊢
  clear nodup
  induction xs with
  | nil => cases found
  | cons x rest ih =>
    by_cases same : x.1 = k
    · simp only [lookup, same, ↓reduceIte, Option.some.injEq] at found
      subst found
      simp only [drop, same, ↓reduceIte, List.map_cons, List.sum_cons]
      omega
    · simp only [lookup, same, ↓reduceIte] at found
      simp only [drop, same, ↓reduceIte, List.map_cons, List.sum_cons]
      have rest := ih found
      omega

theorem erase_of_none (absent : d.get? k = none) : d.erase k = d := by
  obtain ⟨xs, nodup⟩ := d
  simp only [get?, erase, mk.injEq] at absent ⊢
  clear nodup
  induction xs with
  | nil => rfl
  | cons x rest ih =>
    simp only [lookup] at absent
    split at absent
    · cases absent
    · rename_i different
      simp only [drop, different, ↓reduceIte, ih absent]

theorem le_sum (found : d.get? k = some v) : f v ≤ d.sum f := by
  have parts := sum_erase_of_some (f := f) found
  omega

/-- It is enough to sum over keys that have all the values that count. -/
theorem sum_eq_sum_keys {ks : List K} (nodup : ks.Nodup) (covers : ∀ k v, d.get? k = some v → k ∉ ks → f v = 0) :
    d.sum f = (ks.map fun k => ((d.get? k).map f).getD 0).sum := by
  have own : d.sum f = (d.keys.map fun k => ((d.get? k).map f).getD 0).sum := by
    unfold sum keys
    rw [List.map_map]
    refine congrArg List.sum (List.map_congr_left fun x member => ?_)
    have found : d.get? x.1 = some x.2 := mem_items_iff.mp member
    simp [found]
  have each : d.keys.Nodup := d.nodup
  rw [own, ← List.sum_toFinset _ each, ← List.sum_toFinset _ nodup]
  apply Finset.sum_congr_of_eq_on_inter
  · intro k listed outside
    obtain ⟨v, found⟩ := mem_keys_iff.mp (List.mem_toFinset.mp listed)
    rw [found]
    exact covers k v found fun inside => outside (List.mem_toFinset.mpr inside)
  · intro k _ outside
    cases found : d.get? k with
    | none => rfl
    | some v => exact absurd (List.mem_toFinset.mpr (mem_keys_iff.mpr ⟨v, found⟩)) outside
  · exact fun _ _ _ => rfl

omit [DecidableEq K] in
/-- Summed over the keys, a predicate counts the values it holds of. -/
theorem sum_eq_countP {p : V → Prop} [DecidablePred p] (count : ∀ x ∈ d.items, f x.2 = if p x.2 then 1 else 0) :
    d.sum f = d.items.countP fun x => p x.2 := by
  obtain ⟨xs, nodup⟩ := d
  simp only [sum] at count ⊢
  clear nodup
  induction xs with
  | nil => rfl
  | cons x rest ih =>
    have here := count x List.mem_cons_self
    have others := ih fun y member => count y (List.mem_cons_of_mem x member)
    rw [List.map_cons, List.sum_cons, here, others, List.countP_cons]
    by_cases holds : p x.2 <;> simp [holds, Nat.add_comm]

section
variable {W : Type} {g : K → V → W}

theorem mapVal_insert (g : K → V → W) (d : Dict K V) (k : K) (v : V) :
    (d.insert k v).mapVal g = (d.mapVal g).insert k (g k v) := by
  obtain ⟨xs, nodup⟩ := d
  simp only [insert, mapVal, mk.injEq]
  clear nodup
  induction xs with
  | nil => rfl
  | cons x rest ih =>
    by_cases same : x.1 = k
    · simp [put, same]
    · simp only [put, same, ↓reduceIte, List.map_cons, ih]

theorem mapVal_erase (g : K → V → W) (d : Dict K V) (k : K) :
    (d.erase k).mapVal g = (d.mapVal g).erase k := by
  obtain ⟨xs, nodup⟩ := d
  simp only [erase, mapVal, mk.injEq]
  clear nodup
  induction xs with
  | nil => rfl
  | cons x rest ih =>
    by_cases same : x.1 = k
    · simp [drop, same]
    · simp only [drop, same, ↓reduceIte, List.map_cons, ih]

theorem mapVal_congr {g' : K → V → W} (same : ∀ k v, d.get? k = some v → g k v = g' k v) :
    d.mapVal g = d.mapVal g' := by
  simp only [mapVal, mk.injEq]
  apply List.map_congr_left
  intro x member
  rw [same x.1 x.2 (mem_items_iff.mp member)]

end

end Vllm.Dict
