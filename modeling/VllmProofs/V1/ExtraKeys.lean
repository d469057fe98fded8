import VllmProofs.V1.BlockHash

/-!
Which multi-modal inputs the extra keys of a block name: on the way through a prompt, those whose
placeholders overlap the block; for a block that generated tokens complete, at most the last one.
-/

namespace Vllm.V1

/-- A placeholder and a range of positions have one in common. -/
def Overlaps (p : PlaceholderRange) (start stop : ℕ) : Prop := p.offset < stop ∧ start < p.stop

instance (p : PlaceholderRange) (start stop : ℕ) : Decidable (Overlaps p start stop) :=
  inferInstanceAs (Decidable (_ ∧ _))

abbrev MmItem := PlaceholderRange × MmHash

structure Ordered (items : List MmItem) : Prop where
  nonempty : ∀ x ∈ items, 0 < x.1.length
  pairwise : items.Pairwise fun x y => x.1.stop ≤ y.1.offset

def overlapHashes (items : List MmItem) (start stop : ℕ) : List MmHash :=
  (items.filter fun x => Overlaps x.1 start stop).map Prod.snd

variable {items rest : List MmItem} {x : MmItem} {start stop next : ℕ}

theorem Ordered.tail (ordered : Ordered (x :: rest)) : Ordered rest :=
  ⟨fun y member => ordered.nonempty y (List.mem_cons_of_mem x member), (List.pairwise_cons.mp ordered.2).2⟩

theorem Ordered.later (ordered : Ordered (x :: rest)) : ∀ y ∈ rest, x.1.stop ≤ y.1.offset :=
  (List.pairwise_cons.mp ordered.pairwise).1

theorem overlapHashes_cons : overlapHashes (x :: rest) start stop =
    if Overlaps x.1 start stop then x.2 :: overlapHashes rest start stop
    else overlapHashes rest start stop := by
  unfold overlapHashes
  rw [List.filter_cons]
  by_cases meets : Overlaps x.1 start stop <;> simp [meets]

theorem overlapHashes_beyond (beyond : ∀ y ∈ items, stop ≤ y.1.offset) :
    overlapHashes items start stop = [] := by
  unfold overlapHashes
  rw [List.filter_eq_nil_iff.mpr, List.map_nil]
  intro y member
  have from_ := beyond y member
  rw [decide_eq_true_eq]
  rintro ⟨reached, notPassed⟩
  omega

theorem overlapHashes_before (before : ∀ y ∈ items, y.1.stop ≤ start) :
    overlapHashes items start stop = [] := by
  unfold overlapHashes
  rw [List.filter_eq_nil_iff.mpr, List.map_nil]
  intro y member
  have to_ := before y member
  rw [decide_eq_true_eq]
  rintro ⟨reached, notPassed⟩
  omega

theorem overlapHashes_append (one two : List MmItem) : overlapHashes (one ++ two) start stop =
    overlapHashes one start stop ++ overlapHashes two start stop := by
  simp [overlapHashes]

/-! ### On the way through a prompt -/

structure Cursor (items : List MmItem) (position : ℕ) (currMmIdx : ℕ) : Prop where
  past : ∀ x ∈ items.take currMmIdx, x.1.stop ≤ position
  ahead : ∀ x ∈ items.drop currMmIdx, position < x.1.stop

theorem Cursor.zero (ordered : Ordered items) : Cursor items 0 0 := by
  refine ⟨by simp, fun x member => ?_⟩
  have some := ordered.nonempty x (List.mem_of_mem_drop member)
  unfold PlaceholderRange.stop
  omega

/-- The loop names the inputs that overlap the block and goes past those that end in it. -/
theorem mmKeysLoop_ahead (ordered : Ordered rest) (ahead : ∀ x ∈ rest, start < x.1.stop)
    (currMmIdx : ℕ) : ∃ k, mmKeysLoop start stop currMmIdx rest =
      ((overlapHashes rest start stop).map .mm, currMmIdx + k) ∧ Cursor rest stop k := by
  induction rest generalizing currMmIdx with
  | nil => exact ⟨0, rfl, by simp, by simp⟩
  | cons x rest ih =>
    obtain ⟨p, mmHash⟩ := x
    have some := ordered.nonempty _ List.mem_cons_self
    have here := ahead _ List.mem_cons_self
    have later := ordered.later
    dsimp only at some here later
    have notPassed : ¬(p.stop : ℤ) < start := by omega
    rw [mmKeysLoop, overlapHashes_cons]
    by_cases reached : p.offset < stop
    · have meets : Overlaps p start stop := ⟨reached, here⟩
      rw [if_pos (by omega : (p.offset : ℤ) < stop), if_neg notPassed, if_pos meets]
      by_cases ends : p.stop ≤ stop
      · rw [if_pos (by omega : (p.stop : ℤ) ≤ stop)]
        obtain ⟨k, loop, past, beyond⟩ := ih ordered.tail (fun y member => ahead y (List.mem_cons_of_mem _ member))
          (currMmIdx + 1)
        refine ⟨k + 1, ?_, ?_, ?_⟩
        · rw [loop, List.map_cons, Nat.add_assoc, Nat.add_comm 1]
        · intro y member
          rw [List.take_succ_cons] at member
          rcases List.mem_cons.mp member with rfl | member
          · exact ends
          · exact past y member
        · rw [List.drop_succ_cons]
          exact beyond
      · rw [if_neg (by omega : ¬(p.stop : ℤ) ≤ stop), overlapHashes_beyond]
        · refine ⟨0, rfl, by simp, ?_⟩
          intro y member
          rcases List.mem_cons.mp member with rfl | member
          · exact Nat.lt_of_not_le ends
          · have after := later y member
            unfold PlaceholderRange.stop at *
            omega
        · intro y member
          have after := later y member
          omega
    · have apart : ¬Overlaps p start stop := fun meets => reached meets.1
      rw [if_neg (by omega : ¬(p.offset : ℤ) < stop), if_neg apart, overlapHashes_beyond]
      · refine ⟨0, rfl, by simp, ?_⟩
        intro y member
        rcases List.mem_cons.mp member with rfl | member
        · show stop < p.stop
          unfold PlaceholderRange.stop
          omega
        · have after := later y member
          unfold PlaceholderRange.stop at *
          omega
      · intro y member
        have after := later y member
        unfold PlaceholderRange.stop at *
        omega

/-! ### The keys of a request's blocks -/

/-- The multi-modal inputs of a request, where each has been hashed. -/
def mmItems (request : Request) : List MmItem := request.mmPositions.ranges.zip request.mmHashes

def HashesInputs (request : Request) : Prop :=
  request.mmPositions.ranges.length = request.mmHashes.length

instance (request : Request) : Decidable (HashesInputs request) := inferInstanceAs (Decidable (_ = _))

def overlapKeys (request : Request) (start stop : ℕ) : Option (List ExtraKey) :=
  extraTuple (genLoraExtraHashKeys request ++ (overlapHashes (mmItems request) start stop).map .mm)

/-- The keys of a range that `cache_full_blocks` asks for, where only the last input counts. -/
def lastHashes (items : List MmItem) (start stop : ℕ) : List MmHash :=
  match items.getLast? with
  | none => []
  | some x => if x.1.offset < stop ∧ start ≤ x.1.stop then [x.2] else []

def lastKeys (request : Request) (start stop : ℕ) : Option (List ExtraKey) :=
  extraTuple (genLoraExtraHashKeys request ++ (lastHashes (mmItems request) start stop).map .mm)

variable {request : Request} {currMmIdx : ℕ}

theorem map_fst_mmItems (hashes : HashesInputs request) :
    (mmItems request).map Prod.fst = request.mmPositions.ranges :=
  List.map_fst_zip hashes.le

theorem mmItems_ordered (hashes : HashesInputs request) : Ordered (mmItems request) := by
  have ranges := map_fst_mmItems hashes
  constructor
  · intro x member
    apply request.mmPositions.nonempty
    rw [← ranges]
    exact List.mem_map_of_mem member
  · have ordered := request.mmPositions.ordered
    rw [← ranges, List.pairwise_map] at ordered
    exact ordered

theorem getLast?_mmItems (hashes : HashesInputs request) :
    request.mmPositions.ranges.getLast? = (mmItems request).getLast?.map Prod.fst := by
  rw [← map_fst_mmItems hashes, List.getLast?_map]

theorem Ordered.stop_le_last {last : MmItem} (ordered : Ordered items) (found : items.getLast? = some last) :
    ∀ x ∈ items, x.1.stop ≤ last.1.stop := by
  obtain ⟨front, rfl⟩ := List.getLast?_eq_some_iff.mp found
  intro x member
  rcases List.mem_append.mp member with earlier | here
  · have le := (List.pairwise_append.mp ordered.pairwise).2.2 x earlier last (List.mem_singleton_self _)
    unfold PlaceholderRange.stop at *
    omega
  · rw [List.mem_singleton.mp here]

theorem Ordered.drop (ordered : Ordered items) (k : ℕ) : Ordered (items.drop k) :=
  ⟨fun x member => ordered.nonempty x (List.mem_of_mem_drop member),
    ordered.pairwise.sublist (List.drop_sublist k items)⟩

/-- From one block to the next one of a prompt. -/
theorem genMmExtraHashKeys_ahead (hashes : HashesInputs request) (le : start ≤ stop)
    (cursor : Cursor (mmItems request) start currMmIdx) : ∃ next : ℕ,
    genMmExtraHashKeys request start stop currMmIdx =
      .ok ((overlapHashes (mmItems request) start stop).map .mm, (next : ℤ)) ∧
    Cursor (mmItems request) stop next := by
  have ordered := mmItems_ordered hashes
  unfold genMmExtraHashKeys
  dsimp only
  rw [getLast?_mmItems hashes]
  cases found : (mmItems request).getLast? with
  | none =>
    rw [List.getLast?_eq_none_iff] at found
    rw [found]
    exact ⟨currMmIdx, rfl, by simp, by simp⟩
  | some last =>
    have toLast := ordered.stop_le_last found
    have different : ¬request.mmPositions.ranges.length ≠ request.mmHashes.length := not_not.mpr hashes
    dsimp only [Option.map_some]
    rw [if_neg different]
    split
    · rename_i passed
      rw [overlapHashes_before]
      · refine ⟨currMmIdx, rfl, fun x member => ?_, fun x member => ?_⟩
        · exact (cursor.past x member).trans le
        · have ahead := cursor.ahead x member
          have bounded := toLast x (List.mem_of_mem_drop member)
          omega
      · intro x member
        have bounded := toLast x member
        omega
    · obtain ⟨k, loop, past, ahead⟩ := @mmKeysLoop_ahead _ start stop (ordered.drop currMmIdx)
        cursor.ahead currMmIdx
      have passed : overlapHashes (mmItems request) start stop =
          overlapHashes ((mmItems request).drop currMmIdx) start stop := by
        have parts := List.take_append_drop currMmIdx (mmItems request)
        rw [← parts, overlapHashes_append, overlapHashes_before cursor.past, List.nil_append, parts]
      have notNegative : ¬(currMmIdx : ℤ) < 0 := by omega
      rw [if_neg (by omega), if_neg notNegative, Int.toNat_natCast,
        show request.mmPositions.ranges.zip request.mmHashes = mmItems request from rfl, loop, passed]
      refine ⟨currMmIdx + k, rfl, fun x member => ?_, fun x member => ?_⟩
      · rw [List.take_add] at member
        rcases List.mem_append.mp member with before | here
        · exact (cursor.past x before).trans le
        · exact past x here
      · rw [← List.drop_drop] at member
        exact ahead x member

theorem extraKeysFrom_ahead {blockSize : ℕ} (hashes : HashesInputs request)
    (cursor : Cursor (mmItems request) start currMmIdx) : ∃ next : ℕ,
    extraKeysFrom blockSize request start currMmIdx =
      .ok (overlapKeys request start (start + blockSize), (next : ℤ)) ∧
    Cursor (mmItems request) (start + blockSize) next := by
  obtain ⟨next, keys, cursor'⟩ := genMmExtraHashKeys_ahead hashes (Nat.le_add_right start blockSize) cursor
  unfold extraKeysFrom
  split
  · refine ⟨next, ?_, cursor'⟩
    unfold generateBlockHashExtraKeys
    rw [keys]
    rfl
  · rename_i plain
    have bare : request.mmPositions.ranges = [] ∧ request.loraRequest = none := by
      simpa [needExtraKeys] using plain
    have noItems : mmItems request = [] := by
      unfold mmItems
      rw [bare.1]
      rfl
    refine ⟨currMmIdx, ?_, ?_⟩
    · unfold overlapKeys genLoraExtraHashKeys
      rw [noItems, bare.2]
      rfl
    · rw [noItems]
      exact ⟨by simp, by simp⟩

/-! ### For a block that generated tokens complete -/

theorem lastHashes_concat (front : List MmItem) (last : MmItem) :
    lastHashes (front ++ [last]) start stop =
      if last.1.offset < stop ∧ start ≤ last.1.stop then [last.2] else [] := by
  unfold lastHashes
  rw [List.getLast?_concat]

theorem mmKeysLoop_last (x : MmItem) (currMmIdx : ℕ) (notPassed : start ≤ x.1.stop) :
    (mmKeysLoop start stop currMmIdx [x]).1 =
      (if x.1.offset < stop ∧ start ≤ x.1.stop then [x.2] else []).map ExtraKey.mm := by
  obtain ⟨p, mmHash⟩ := x
  dsimp only at notPassed ⊢
  rw [mmKeysLoop]
  by_cases reached : p.offset < stop
  · have both : p.offset < stop ∧ start ≤ p.stop := ⟨reached, notPassed⟩
    have inside : (p.offset : ℤ) < stop := by omega
    have notBefore : ¬(p.stop : ℤ) < start := by omega
    rw [if_pos inside, if_neg notBefore, if_pos both]
    by_cases ends : (p.stop : ℤ) ≤ stop
    · rw [if_pos ends]
      rfl
    · rw [if_neg ends]
      rfl
  · have outside : ¬(p.offset : ℤ) < stop := by omega
    have apart : ¬(p.offset < stop ∧ start ≤ p.stop) := fun both => reached both.1
    rw [if_neg outside, if_neg apart]
    rfl

theorem generateBlockHashExtraKeys_last (hashes : HashesInputs request) : ∃ next,
    generateBlockHashExtraKeys request start stop (-1) = .ok (lastKeys request start stop, next) := by
  have mmKeys : ∃ next, genMmExtraHashKeys request start stop (-1) =
      .ok ((lastHashes (mmItems request) start stop).map .mm, next) := by
    unfold genMmExtraHashKeys
    dsimp only
    rw [getLast?_mmItems hashes]
    cases found : (mmItems request).getLast? with
    | none =>
      unfold lastHashes
      rw [found]
      exact ⟨-1, rfl⟩
    | some last =>
      have different : ¬request.mmPositions.ranges.length ≠ request.mmHashes.length := not_not.mpr hashes
      obtain ⟨front, split_⟩ := List.getLast?_eq_some_iff.mp found
      have length : request.mmPositions.ranges.length = front.length + 1 := by
        rw [← map_fst_mmItems hashes, split_]
        simp
      dsimp only [Option.map_some]
      rw [if_neg different, split_, lastHashes_concat]
      split
      · rename_i passed
        rw [if_neg fun both => by omega]
        exact ⟨-1, rfl⟩
      · rename_i notPassed
        have index : ((front.length + 1 : ℕ) + (-1) : ℤ).toNat = front.length := by omega
        rw [length, if_neg (by omega), if_pos (by omega), index,
          show request.mmPositions.ranges.zip request.mmHashes = mmItems request from rfl, split_,
          List.drop_left, mmKeysLoop_last last _ (by omega)]
        exact ⟨_, rfl⟩
  obtain ⟨next, keys⟩ := mmKeys
  refine ⟨next, ?_⟩
  unfold generateBlockHashExtraKeys
  rw [keys]
  rfl

/-- No input but the last overlaps the range, and that one does not end where the range starts. -/
def OnlyLast (ranges : List PlaceholderRange) (start stop : ℕ) : Prop :=
  (∀ p ∈ ranges.dropLast, ¬Overlaps p start stop) ∧ ∀ p ∈ ranges.getLast?, p.stop ≠ start

theorem overlapHashes_eq_nil_iff :
    overlapHashes items start stop = [] ↔ ∀ p ∈ items.map Prod.fst, ¬Overlaps p start stop := by
  unfold overlapHashes
  rw [List.map_eq_nil_iff, List.filter_eq_nil_iff, List.forall_mem_map]
  simp

theorem lastHashes_eq_iff (ordered : Ordered items) (le : start ≤ stop) :
    lastHashes items start stop = overlapHashes items start stop ↔
      OnlyLast (items.map Prod.fst) start stop := by
  cases found : items.getLast? with
  | none =>
    rw [List.getLast?_eq_none_iff] at found
    subst found
    exact iff_of_true rfl ⟨nofun, nofun⟩
  | some last =>
    obtain ⟨front, rfl⟩ := List.getLast?_eq_some_iff.mp found
    have some := ordered.nonempty last (List.mem_append_right _ (List.mem_singleton_self _))
    have length : last.1.stop = last.1.offset + last.1.length := rfl
    have before : ∀ x ∈ front, x.1.stop ≤ last.1.offset := fun x member =>
      (List.pairwise_append.mp ordered.pairwise).2.2 x member last (List.mem_singleton_self _)
    have condition : OnlyLast ((front ++ [last]).map Prod.fst) start stop ↔
        overlapHashes front start stop = [] ∧ last.1.stop ≠ start := by
      unfold OnlyLast
      rw [overlapHashes_eq_nil_iff, List.map_append, List.map_singleton, List.dropLast_concat,
        List.getLast?_concat]
      simp
    have here : overlapHashes [last] start stop = if Overlaps last.1 start stop then [last.2] else [] :=
      overlapHashes_cons
    rw [condition, lastHashes_concat, overlapHashes_append, here]
    rcases Nat.lt_trichotomy start last.1.stop with inside | ends | passed
    · by_cases reached : last.1.offset < stop
      · rw [if_pos ⟨reached, inside.le⟩, if_pos ⟨reached, inside⟩]
        constructor
        · intro same
          have lengths := congrArg List.length same
          rw [List.length_append, List.length_singleton] at lengths
          exact ⟨List.length_eq_zero_iff.mp (by omega), by omega⟩
        · rintro ⟨none, -⟩
          rw [none, List.nil_append]
      · rw [if_neg fun both => reached both.1, if_neg fun both => reached both.1, List.append_nil]
        exact ⟨fun none => ⟨none.symm, by omega⟩, fun both => both.1.symm⟩
    · have none : overlapHashes front start stop = [] := overlapHashes_before fun x member => by
        have bounded := before x member
        omega
      have reached : last.1.offset < stop := by omega
      have apart : ¬Overlaps last.1 start stop := fun meets => by
        have after := meets.2
        omega
      rw [if_pos ⟨reached, ends.le⟩, if_neg apart, none]
      exact iff_of_false nofun fun both => both.2 ends.symm
    · have apart : ¬Overlaps last.1 start stop := fun meets => by
        have after := meets.2
        omega
      rw [if_neg fun both => by omega, if_neg apart, List.append_nil]
      exact ⟨fun none => ⟨none.symm, by omega⟩, fun both => both.1.symm⟩

theorem extraTuple_eq_iff {one two : List ExtraKey} : extraTuple one = extraTuple two ↔ one = two := by
  unfold extraTuple
  split <;> split <;> simp_all [eq_comm]

theorem lastKeys_eq_iff (hashes : HashesInputs request) (le : start ≤ stop) :
    lastKeys request start stop = overlapKeys request start stop ↔
      OnlyLast request.mmPositions.ranges start stop := by
  have injective : Function.Injective ExtraKey.mm := fun _ _ same => ExtraKey.mm.inj same
  unfold lastKeys overlapKeys
  rw [extraTuple_eq_iff, List.append_cancel_left_eq, (List.map_injective_iff.mpr injective).eq_iff,
    lastHashes_eq_iff (mmItems_ordered hashes) le, map_fst_mmItems hashes]

end Vllm.V1
