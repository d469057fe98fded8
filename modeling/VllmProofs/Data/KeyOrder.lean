import VllmProofs.Data.Dict

/-!
The order of the keys of a dictionary: an erased key leaves, a new key comes last.
-/

namespace Vllm.Dict

variable {K V : Type} [DecidableEq K] {d : Dict K V} {k j : K} {v : V}

omit [DecidableEq K] in
theorem length_keys (d : Dict K V) : d.keys.length = d.size := List.length_map _

omit [DecidableEq K] in
theorem nodup_keys (d : Dict K V) : d.keys.Nodup := d.nodup

theorem contains_iff_mem_keys : d.contains k = true ↔ k ∈ d.keys := contains_iff.trans mem_keys_iff.symm

theorem not_contains_iff_mem_keys : d.contains k = false ↔ k ∉ d.keys := by
  rw [← contains_iff_mem_keys, Bool.not_eq_true]

theorem keys_drop (k : K) (xs : List (K × V)) : (drop k xs).map Prod.fst = (xs.map Prod.fst).erase k := by
  induction xs with
  | nil => rfl
  | cons x rest ih =>
    unfold drop
    rw [List.map_cons, List.erase_cons]
    by_cases same : x.1 = k
    · rw [if_pos same, if_pos (beq_iff_eq.mpr same)]
    · rw [if_neg same, if_neg (by simpa using same), List.map_cons, ih]

theorem keys_erase (d : Dict K V) (k : K) : (d.erase k).keys = d.keys.erase k := keys_drop k d.items

theorem keys_put (k : K) (v : V) (xs : List (K × V)) :
    (put k v xs).map Prod.fst = if k ∈ xs.map Prod.fst then xs.map Prod.fst else xs.map Prod.fst ++ [k] := by
  induction xs with
  | nil => rfl
  | cons x rest ih =>
    unfold put
    by_cases same : x.1 = k
    · rw [if_pos same, List.map_cons, List.map_cons, if_pos (by rw [same]; exact List.mem_cons_self), same]
    · rw [if_neg same, List.map_cons, List.map_cons, ih]
      by_cases member : k ∈ rest.map Prod.fst
      · rw [if_pos member, if_pos (List.mem_cons_of_mem _ member)]
      · rw [if_neg member, if_neg, List.cons_append]
        intro either
        rcases List.mem_cons.mp either with here | there
        · exact same here.symm
        · exact member there

theorem keys_insert (d : Dict K V) (k : K) (v : V) :
    (d.insert k v).keys = if k ∈ d.keys then d.keys else d.keys ++ [k] := keys_put k v d.items

theorem keys_insert_of_mem (member : k ∈ d.keys) : (d.insert k v).keys = d.keys := by
  rw [keys_insert, if_pos member]

theorem keys_insert_of_not_mem (fresh : k ∉ d.keys) : (d.insert k v).keys = d.keys ++ [k] := by
  rw [keys_insert, if_neg fresh]

/-- An entry that is erased and put back comes last. -/
theorem keys_erase_insert (d : Dict K V) (k : K) (v : V) : ((d.erase k).insert k v).keys = d.keys.erase k ++ [k] := by
  rw [keys_insert_of_not_mem, keys_erase]
  rw [keys_erase]
  exact d.nodup_keys.not_mem_erase

end Vllm.Dict
