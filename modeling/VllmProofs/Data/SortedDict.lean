import Mathlib

/-!
Dictionaries kept in key order, least key first (`sortedcontainers.SortedDict`).
-/

namespace Vllm

structure SortedDict (K V : Type) [LinearOrder K] where
  items : List (K × V)
  sorted : items.Pairwise (fun x y => x.1 < y.1)

namespace SortedDict

variable {K V : Type} [LinearOrder K]

/-- The pair `(k, v)` put in its place, replacing what stood under `k`. -/
def place (k : K) (v : V) : List (K × V) → List (K × V)
  | [] => [(k, v)]
  | (k', v') :: rest =>
    if k < k' then (k, v) :: (k', v') :: rest
    else if k' < k then (k', v') :: place k v rest
    else (k, v) :: rest

variable {k : K} {x : K × V} {v : V}

theorem mem_place {xs : List (K × V)} (h : x ∈ place k v xs) : x = (k, v) ∨ x ∈ xs := by
  induction xs with
  | nil => simpa [place] using h
  | cons y rest ih =>
    simp only [place] at h
    split at h
    · simpa using h
    · split at h
      · rcases List.mem_cons.mp h with same | later
        · simp [same]
        · rcases ih later with same | old
          · exact Or.inl same
          · simp [old]
      · rcases List.mem_cons.mp h with same | later
        · exact Or.inl same
        · simp [later]

theorem sorted_place {xs : List (K × V)} (h : xs.Pairwise (fun x y => x.1 < y.1)) :
    (place k v xs).Pairwise (fun x y => x.1 < y.1) := by
  induction xs with
  | nil => simp [place]
  | cons y rest ih =>
    obtain ⟨k', v'⟩ := y
    obtain ⟨first, tail⟩ := List.pairwise_cons.mp h
    simp only [place]
    split
    · rename_i below
      refine List.pairwise_cons.mpr ⟨?_, h⟩
      intro x member
      rcases List.mem_cons.mp member with same | later
      · exact same ▸ below
      · exact below.trans (first x later)
    · rename_i notBelow
      split
      · rename_i above
        refine List.pairwise_cons.mpr ⟨?_, ih tail⟩
        intro x member
        rcases mem_place member with same | old
        · exact same ▸ above
        · exact first x old
      · rename_i notAbove
        have same : k = k' := le_antisymm (not_lt.mp notAbove) (not_lt.mp notBelow)
        subst same
        exact List.pairwise_cons.mpr ⟨first, tail⟩

def empty : SortedDict K V := ⟨[], List.Pairwise.nil⟩

instance : EmptyCollection (SortedDict K V) := ⟨empty⟩

/-- `d[k] = v` -/
def insert (d : SortedDict K V) (k : K) (v : V) : SortedDict K V :=
  ⟨place k v d.items, sorted_place d.sorted⟩

def erase (d : SortedDict K V) (k : K) : SortedDict K V :=
  ⟨d.items.filter (fun x => x.1 ≠ k), d.sorted.filter _⟩

def contains (d : SortedDict K V) (k : K) : Bool := d.items.any (fun x => x.1 = k)

/-- The dictionary without its leading pairs that fail `p`. -/
def dropWhile (p : K × V → Bool) (d : SortedDict K V) : SortedDict K V :=
  ⟨d.items.dropWhile p, d.sorted.sublist (List.dropWhile_sublist p)⟩

def first? (d : SortedDict K V) : Option (K × V) := d.items.head?

@[simp] theorem mem_insert_self (d : SortedDict K V) (k : K) (v : V) :
    (k, v) ∈ (d.insert k v).items := by
  obtain ⟨xs, h⟩ := d
  simp only [insert]
  clear h
  induction xs with
  | nil => simp [place]
  | cons y rest ih =>
    simp only [place]
    split
    · simp
    · split
      · exact List.mem_cons_of_mem _ ih
      · simp

variable {d : SortedDict K V}

theorem mem_insert_of_ne (different : x.1 ≠ k) : x ∈ (d.insert k v).items ↔ x ∈ d.items := by
  obtain ⟨xs, h⟩ := d
  simp only [insert]
  clear h
  have notNew : x ≠ (k, v) := fun same => different (by rw [same])
  induction xs with
  | nil => simp [place, notNew]
  | cons y rest ih =>
    obtain ⟨k', v'⟩ := y
    simp only [place]
    split
    · simp [notNew]
    · rename_i notBelow
      split
      · simp [ih]
      · rename_i notAbove
        have same : k = k' := le_antisymm (not_lt.mp notAbove) (not_lt.mp notBelow)
        have notOld : x ≠ (k', v') := fun eq => different (by rw [eq, same])
        simp [notNew, notOld]

theorem mem_unique {w : V} (hv : (k, v) ∈ d.items) (hw : (k, w) ∈ d.items) : v = w := by
  obtain ⟨xs, h⟩ := d
  simp only at hv hw
  induction xs with
  | nil => cases hv
  | cons y rest ih =>
    obtain ⟨first, tail⟩ := List.pairwise_cons.mp h
    rcases List.mem_cons.mp hv with hv | hv <;> rcases List.mem_cons.mp hw with hw | hw
    · exact (Prod.mk.inj (hv.trans hw.symm)).2
    · exact (lt_irrefl _ (hv ▸ first _ hw)).elim
    · exact (lt_irrefl _ (hw ▸ first _ hv)).elim
    · exact ih tail hv hw

theorem mem_erase : x ∈ (d.erase k).items ↔ x ∈ d.items ∧ x.1 ≠ k := by simp [erase]

theorem contains_iff : d.contains k = true ↔ ∃ v, (k, v) ∈ d.items := by
  simp only [contains, List.any_eq_true, decide_eq_true_eq]
  constructor
  · rintro ⟨⟨k', v⟩, member, same⟩
    exact ⟨v, same ▸ member⟩
  · rintro ⟨v, member⟩
    exact ⟨(k, v), member, rfl⟩

variable {p : K × V → Bool}

theorem mem_of_mem_dropWhile (h : x ∈ (d.dropWhile p).items) : x ∈ d.items :=
  (List.dropWhile_sublist p).mem h

theorem mem_dropWhile (member : x ∈ d.items) (fails : p x = false) : x ∈ (d.dropWhile p).items := by
  rw [← List.takeWhile_append_dropWhile (p := p) (l := d.items)] at member
  rcases List.mem_append.mp member with early | late
  · have holds := List.mem_takeWhile_imp early
    rw [fails] at holds
    cases holds
  · exact late

/-- A pair that is not before one that fails `p` is left too. -/
theorem mem_dropWhile_of_le {y : K × V} (member : x ∈ d.items)
    (other : y ∈ d.items) (fails : p y = false) (before : y.1 ≤ x.1) : x ∈ (d.dropWhile p).items := by
  have sorted := d.sorted
  rw [← List.takeWhile_append_dropWhile (p := p) (l := d.items)] at member sorted
  rcases List.mem_append.mp member with early | late
  · have order := (List.pairwise_append.mp sorted).2.2 x early y (mem_dropWhile other fails)
    exact absurd before (not_le.mpr order)
  · exact late

/-- What is left after dropping while `p` starts with a pair that fails `p`. -/
theorem first?_dropWhile (member : x ∈ d.items) (fails : p x = false) :
    ∃ y, (d.dropWhile p).first? = some y ∧ y ∈ d.items ∧ p y = false := by
  have kept := mem_dropWhile member fails
  simp only [dropWhile, first?] at kept ⊢
  cases rest : d.items.dropWhile p with
  | nil => rw [rest] at kept; cases kept
  | cons y tail =>
    refine ⟨y, rfl, (List.dropWhile_sublist p).mem (rest ▸ List.mem_cons_self), ?_⟩
    have head := List.head_dropWhile_not p (l := d.items) (by simp [rest])
    simpa [rest] using head

theorem first?_le {y : K × V} (first : d.first? = some y) (member : x ∈ d.items) : y.1 ≤ x.1 := by
  obtain ⟨items, sorted⟩ := d
  cases items with
  | nil => cases member
  | cons z rest =>
    cases first
    rcases List.mem_cons.mp member with rfl | later
    · exact le_rfl
    · exact ((List.pairwise_cons.mp sorted).1 x later).le

def values (d : SortedDict K V) : List V := d.items.map Prod.snd

def popItem? (d : SortedDict K V) : Option ((K × V) × SortedDict K V) :=
  match d with
  | ⟨[], _⟩ => none
  | ⟨x :: rest, sorted⟩ => some (x, ⟨rest, (List.pairwise_cons.mp sorted).2⟩)

theorem items_of_popItem? {rest : SortedDict K V} (popped : d.popItem? = some (x, rest)) :
    d.items = x :: rest.items := by
  obtain ⟨items, sorted⟩ := d
  cases items with
  | nil => cases popped
  | cons y items =>
    cases popped
    rfl

theorem values_of_popItem? {rest : SortedDict K V} (popped : d.popItem? = some (x, rest)) :
    d.values = x.2 :: rest.values := by
  unfold values
  rw [items_of_popItem? popped, List.map_cons]

/-- A new key adds a pair. -/
theorem items_insert_of_not_contains (new : d.contains k = false) :
    (d.insert k v).items.Perm ((k, v) :: d.items) := by
  obtain ⟨xs, sorted⟩ := d
  show (place k v xs).Perm ((k, v) :: xs)
  unfold contains at new
  dsimp only at new
  clear sorted
  induction xs with
  | nil => exact List.Perm.refl _
  | cons y rest ih =>
    obtain ⟨k', v'⟩ := y
    simp only [List.any_cons, Bool.or_eq_false_iff, decide_eq_false_iff_not] at new
    simp only [place]
    split
    · exact List.Perm.refl _
    · split
      · exact ((ih new.2).cons _).trans (List.Perm.swap _ _ _)
      · rename_i notBelow notAbove
        exact absurd (le_antisymm (not_lt.mp notBelow) (not_lt.mp notAbove)) new.1

theorem values_insert_of_not_contains (new : d.contains k = false) :
    (d.insert k v).values.Perm (v :: d.values) :=
  (items_insert_of_not_contains new).map Prod.snd

/-- A key that is there takes the place of one value. -/
theorem values_insert_of_contains (old : d.contains k = true) :
    ∃ w, (w :: (d.insert k v).values).Perm (v :: d.values) := by
  obtain ⟨xs, sorted⟩ := d
  show ∃ w, (w :: (place k v xs).map Prod.snd).Perm (v :: xs.map Prod.snd)
  unfold contains at old
  dsimp only at old
  induction xs with
  | nil => cases old
  | cons y rest ih =>
    obtain ⟨k', v'⟩ := y
    obtain ⟨first, tail⟩ := List.pairwise_cons.mp sorted
    simp only [List.any_cons, Bool.or_eq_true, decide_eq_true_eq] at old
    simp only [place]
    split
    · rename_i below
      rcases old with same | later
      · exact absurd below (by rw [same]; exact lt_irrefl _)
      · obtain ⟨x, member, same⟩ := List.any_eq_true.mp later
        have above : k' < k := by
          rw [← of_decide_eq_true same]
          exact first x member
        exact absurd above (lt_asymm below)
    · split
      · rename_i above
        rcases old with same | later
        · exact absurd above (by rw [same]; exact lt_irrefl _)
        · obtain ⟨w, perm⟩ := ih tail later
          refine ⟨w, ?_⟩
          show (w :: v' :: (place k v rest).map Prod.snd).Perm (v :: v' :: rest.map Prod.snd)
          exact (List.Perm.swap v' w _).trans ((perm.cons v').trans (List.Perm.swap v v' _))
      · exact ⟨v', List.Perm.swap v v' _⟩

/-- The pairs decide the dictionary. -/
theorem ext_of_mem {d' : SortedDict K V} (same : ∀ x, x ∈ d.items ↔ x ∈ d'.items) : d = d' := by
  have irreflexive : ∀ d : SortedDict K V, d.items.Nodup := fun d => d.sorted.imp fun less same => less.ne (by rw [same])
  have perm := (List.perm_ext_iff_of_nodup (irreflexive d) (irreflexive d')).mpr same
  obtain ⟨items, sorted⟩ := d
  obtain ⟨items', sorted'⟩ := d'
  congr 1
  exact perm.eq_of_pairwise (fun x y _ _ less more => absurd (less.trans more) (lt_irrefl _)) sorted sorted'

/-- There are finitely many dictionaries with these pairs. -/
theorem finite_within [DecidableEq V] (pairs : Finset (K × V)) : {d : SortedDict K V | ∀ x ∈ d.items, x ∈ pairs}.Finite := by
  refine Set.Finite.of_finite_image (f := fun d => d.items.toFinset) ((pairs.powerset : Finset _).finite_toSet.subset ?_) ?_
  · rintro _ ⟨d, within, rfl⟩
    rw [Finset.mem_coe, Finset.mem_powerset]
    intro x member
    exact within x (List.mem_toFinset.mp member)
  · intro d _ d' _ same
    apply ext_of_mem
    intro x
    rw [← List.mem_toFinset, ← List.mem_toFinset]
    exact Finset.ext_iff.mp same x

end SortedDict
end Vllm
