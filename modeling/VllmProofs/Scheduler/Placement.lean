import VllmProofs.Scheduler.Board

/-!
Where the sequence groups of a scheduler are. A place is a group with the status that its
unfinished sequences have there; the queues are places, and so are the groups that a method of
the scheduler holds on its way from one queue to another.
-/

namespace Vllm
open Exec

variable {status : SequenceStatus}

namespace SequenceGroup

def live (s : SequenceGroup) : List (SeqId × SequenceStatus) :=
  (s.seqs.filter fun seq => !seq.isFinished).map fun seq => (seq.seqId, seq.status)

def seqIds (s : SequenceGroup) : List SeqId := s.seqs.map Sequence.seqId

def identity (s : SequenceGroup) : String × List SeqId := (s.requestId, s.seqIds)

variable {s : SequenceGroup}

theorem mem_live {q : SeqId × SequenceStatus} :
    q ∈ s.live ↔ ∃ seq ∈ s.seqs, seq.isFinished = false ∧ (seq.seqId, seq.status) = q := by
  simp [live, and_assoc]

theorem isFinished_iff : s.isFinished = true ↔ s.live = [] := by
  simp [isFinished, live]

theorem seqIds_of_live {id : SeqId} (member : id ∈ s.live.map Prod.fst) : id ∈ s.seqIds := by
  obtain ⟨q, present, rfl⟩ := List.mem_map.mp member
  obtain ⟨seq, among, -, rfl⟩ := mem_live.mp present
  exact List.mem_map_of_mem among

theorem finished_not_live (distinct : s.seqIds.Nodup) {seq : Sequence}
    (among : seq ∈ s.seqs) (finished : seq.isFinished = true) :
    seq.seqId ∉ s.live.map Prod.fst := by
  intro member
  obtain ⟨q, present, same⟩ := List.mem_map.mp member
  obtain ⟨seq', among', unfinished, rfl⟩ := mem_live.mp present
  have equal := List.inj_on_of_nodup_map distinct among' among same
  rw [equal, finished] at unfinished
  cases unfinished

theorem mapSeqs_seqs (f : Sequence → Sequence) (s : SequenceGroup) :
    (s.mapSeqs f).seqs = s.seqs.map f := rfl

variable {f : Sequence → Sequence}

theorem mapSeqs_identity (same : ∀ seq, (f seq).seqId = seq.seqId)
    (s : SequenceGroup) : (s.mapSeqs f).identity = s.identity := by
  unfold identity seqIds
  rw [mapSeqs_seqs, List.map_map, show Sequence.seqId ∘ f = Sequence.seqId from funext same]
  rfl

theorem mapSeqs_live {g : SequenceStatus → SequenceStatus} (finished : ∀ seq ∈ s.seqs, (f seq).isFinished = seq.isFinished)
    (each : ∀ seq ∈ s.seqs, seq.isFinished = false →
      (f seq).seqId = seq.seqId ∧ (f seq).status = g seq.status) :
    (s.mapSeqs f).live = s.live.map fun q => (q.1, g q.2) := by
  unfold live
  rw [mapSeqs_seqs]
  generalize s.seqs = seqs at finished each
  induction seqs with
  | nil => rfl
  | cons seq rest ih =>
    have before := ih (fun seq' among => finished seq' (List.mem_cons_of_mem _ among))
      fun seq' among => each seq' (List.mem_cons_of_mem _ among)
    have kept := finished seq List.mem_cons_self
    cases done : seq.isFinished with
    | true => simpa [kept, done] using before
    | false =>
      obtain ⟨id, status⟩ := each seq List.mem_cons_self done
      simpa [kept, done, id, status] using before

theorem mapSeqs_finished
    (finished : ∀ seq ∈ s.seqs, (f seq).isFinished = true) : (s.mapSeqs f).live = [] := by
  rw [← isFinished_iff, isFinished, mapSeqs_seqs]
  simpa using finished

theorem setStatus_identity (status target : SequenceStatus) (s : SequenceGroup) :
    (setStatus status target s).identity = s.identity := by
  refine mapSeqs_identity (fun seq => ?_) s
  split
  · rfl
  · rfl

theorem setStatus_live (status target : SequenceStatus)
    (unfinished : status.isFinished = false) (remains : target.isFinished = false)
    (all : ∀ q ∈ s.live, q.2 = status) :
    (setStatus status target s).live = s.live.map fun q => (q.1, target) := by
  refine mapSeqs_live (g := fun _ => target) (fun seq _ => ?_) fun seq among live => ?_
  · split
    · rename_i same
      simp [Sequence.isFinished, same, unfinished, remains]
    · rfl
  · have same : seq.status = status := all _ (mem_live.mpr ⟨seq, among, live, rfl⟩)
    simp [same]

theorem setStatus_finished {target : SequenceStatus}
    (ends : target.isFinished = true) (all : ∀ q ∈ s.live, q.2 = status) :
    (setStatus status target s).live = [] := by
  refine mapSeqs_finished fun seq among => ?_
  split
  · exact ends
  · rename_i different
    by_contra live
    exact different (all _ (mem_live.mpr ⟨seq, among, by simpa using live, rfl⟩))

theorem getSeqs_live (status : SequenceStatus)
    (unfinished : status.isFinished = false) (all : ∀ q ∈ s.live, q.2 = status) :
    (s.getSeqs status).map (fun seq => (seq.seqId, seq.status)) = s.live := by
  unfold getSeqs live
  congr 1
  refine List.filter_congr fun seq among => ?_
  cases done : seq.isFinished with
  | true =>
    have different : seq.status ≠ status := by
      intro same
      rw [Sequence.isFinished, same, unfinished] at done
      cases done
    simp [different]
  | false =>
    have same : seq.status = status := all _ (mem_live.mpr ⟨seq, among, done, rfl⟩)
    simp [same]

theorem getSeqs_finished (status : SequenceStatus)
    (unfinished : status.isFinished = false) (finished : s.live = []) : s.getSeqs status = [] := by
  have same := getSeqs_live status unfinished (s := s) (by simp [finished])
  rw [finished, List.map_eq_nil_iff] at same
  exact same

theorem getMaxNumRunningSeqs_live (s : SequenceGroup) : s.getMaxNumRunningSeqs = s.live.length := by
  have split := List.length_eq_length_filter_add (l := s.seqs) Sequence.isFinished
  unfold getMaxNumRunningSeqs numFinishedSeqs live
  rw [List.length_map]
  omega

structure Progress (s t : SequenceGroup) : Prop where
  identity : t.identity = s.identity
  live : t.live.Sublist s.live

theorem Progress.refl (s : SequenceGroup) : Progress s s := ⟨rfl, List.Sublist.refl _⟩

end SequenceGroup

/-! ### Places -/

abbrev Place := GroupRef × SequenceStatus

def placesOf (status : SequenceStatus) (queue : List GroupRef) : Multiset Place :=
  queue.map fun g => (g, status)

@[simp] theorem placesOf_nil (status : SequenceStatus) : placesOf status [] = 0 := rfl

@[simp] theorem placesOf_cons (status : SequenceStatus) (g : GroupRef) (queue : List GroupRef) :
    placesOf status (g :: queue) = (g, status) ::ₘ placesOf status queue := rfl

@[simp] theorem placesOf_append (status : SequenceStatus) (left right : List GroupRef) :
    placesOf status (left ++ right) = placesOf status left + placesOf status right := by
  unfold placesOf
  rw [List.map_append, ← Multiset.coe_add]

theorem placesOf_perm {left right : List GroupRef} (perm : left.Perm right) :
    placesOf status left = placesOf status right := Multiset.coe_eq_coe.mpr (perm.map _)

@[simp] theorem placesOf_reverse (status : SequenceStatus) (queue : List GroupRef) :
    placesOf status queue.reverse = placesOf status queue := placesOf_perm queue.reverse_perm

theorem map_placesOf (status : SequenceStatus) (queue : List GroupRef) :
    (placesOf status queue).map Prod.fst = queue := by
  unfold placesOf
  rw [Multiset.map_coe, List.map_map]
  exact congrArg _ (List.map_id queue)

theorem mem_placesOf {queue : List GroupRef} {p : Place} :
    p ∈ placesOf status queue ↔ p.1 ∈ queue ∧ p.2 = status := by
  obtain ⟨g, status'⟩ := p
  simp [placesOf, eq_comm]

/-- Stopped groups wait for their last output, and are running until then. -/
def Board.places (b : Board) : Multiset Place :=
  placesOf .waiting b.waiting + placesOf .running b.running + placesOf .swapped b.swapped +
    placesOf .running b.asyncStopped

/-- The groups added so far, those that have been dropped from the list of stopped groups, and
who every group is. -/
structure Registry where
  added : Set GroupRef
  stopped : Set GroupRef
  config : SchedulerConfig
  identity : GroupRef → String × List SeqId
  requests : ∀ g ∈ added, ∀ g' ∈ added, (identity g).1 = (identity g').1 → g = g'
  distinct : ∀ g ∈ added, (identity g).2.Nodup
  owners : ∀ g ∈ added, ∀ g' ∈ added, ∀ id ∈ (identity g).2, id ∈ (identity g').2 → g = g'

def Registry.ids (r : Registry) (g : GroupRef) : List SeqId := (r.identity g).2

/-- The groups are at the places `T`, and but for the `dirty` sequences those with a table are
the unfinished ones of groups that do not wait. -/
structure Spread (r : Registry) (dirty : Set SeqId) (T : Multiset Place)
    (groups : GroupRef → SequenceGroup) (tables : Set SeqId) : Prop where
  known : ∀ p ∈ T, p.1 ∈ r.added
  nodup : (T.map Prod.fst).Nodup
  status : ∀ p ∈ T, ∀ q ∈ (groups p.1).live, q.2 = p.2
  single : ∀ p ∈ T, p.2 ≠ .waiting → (groups p.1).live.length ≤ 1
  covered : ∀ g ∈ r.added, g ∉ r.stopped → (groups g).live ≠ [] → g ∈ T.map Prod.fst
  identity : ∀ g ∈ r.added, (groups g).identity = r.identity g
  owned : ∀ id ∈ tables, id ∉ dirty → ∃ g ∈ r.added, id ∈ r.ids g
  tabled : ∀ g ∈ r.added, ∀ id ∈ r.ids g, id ∉ dirty →
    (id ∈ tables ↔ id ∈ (groups g).live.map Prod.fst ∧ ∃ p ∈ T, p.1 = g ∧ p.2 ≠ .waiting)

namespace Spread

variable {r : Registry} {dirty dirty' : Set SeqId} {T : Multiset Place}
  {groups groups' : GroupRef → SequenceGroup} {tables tables' : Set SeqId} {g : GroupRef}
  {status status' : SequenceStatus}

theorem seqIds (spread : Spread r dirty T groups tables) (known : g ∈ r.added) :
    (groups g).seqIds = r.ids g := congrArg Prod.snd (spread.identity g known)

theorem mono (spread : Spread r dirty T groups tables) (more : dirty ⊆ dirty') :
    Spread r dirty' T groups tables where
  known := spread.known
  nodup := spread.nodup
  status := spread.status
  single := spread.single
  covered := spread.covered
  identity := spread.identity
  owned id member clean := spread.owned id member fun among => clean (more among)
  tabled g known id own clean := spread.tabled g known id own fun among => clean (more among)

section
variable (spread : Spread r dirty ((g, status) ::ₘ T) groups tables)
include spread

theorem absent {p : Place} (other : p ∈ T) : p.1 ≠ g := by
  have once := spread.nodup
  rw [Multiset.map_cons, Multiset.nodup_cons] at once
  have again := Multiset.mem_map_of_mem Prod.fst other
  rintro rfl
  exact once.1 again

theorem here {id : SeqId} (own : id ∈ r.ids g) (clean : id ∉ dirty) :
    id ∈ tables ↔ id ∈ (groups g).live.map Prod.fst ∧ status ≠ .waiting := by
  have known := spread.known _ (Multiset.mem_cons_self _ _)
  rw [spread.tabled g known id own clean]
  refine and_congr_right fun _ => ⟨?_, fun live => ⟨_, Multiset.mem_cons_self _ _, rfl, live⟩⟩
  rintro ⟨p, member, same, live⟩
  cases Multiset.mem_cons.mp member with
  | inl first => rwa [first] at live
  | inr other => exact (spread.absent other same).elim

/-- A group changes, and so does its place. -/
theorem replace (others : ∀ g', g' ≠ g → groups' g' = groups g')
    (same : (groups' g).identity = (groups g).identity)
    (statuses : ∀ q ∈ (groups' g).live, q.2 = status')
    (single : status' ≠ .waiting → (groups' g).live.length ≤ 1)
    (elsewhere : ∀ id, id ∉ r.ids g → (id ∈ tables' ↔ id ∈ tables))
    (here : ∀ id ∈ r.ids g, id ∉ dirty →
      (id ∈ tables' ↔ id ∈ (groups' g).live.map Prod.fst ∧ status' ≠ .waiting)) :
    Spread r dirty ((g, status') ::ₘ T) groups' tables' := by
  have known := spread.known _ (Multiset.mem_cons_self _ _)
  refine ⟨?_, ?_, ?_, ?_, ?_, ?_, ?_, ?_⟩
  · intro p member
    cases Multiset.mem_cons.mp member with
    | inl first => rw [first]; exact known
    | inr other => exact spread.known p (Multiset.mem_cons_of_mem other)
  · simpa using spread.nodup
  · intro p member
    cases Multiset.mem_cons.mp member with
    | inl first => rw [first]; exact statuses
    | inr other =>
      rw [others _ (spread.absent other)]
      exact spread.status p (Multiset.mem_cons_of_mem other)
  · intro p member
    cases Multiset.mem_cons.mp member with
    | inl first => rw [first]; exact single
    | inr other =>
      rw [others _ (spread.absent other)]
      exact spread.single p (Multiset.mem_cons_of_mem other)
  · intro g' among present unfinished
    by_cases equal : g' = g
    · simp [equal]
    · rw [others g' equal] at unfinished
      simpa using spread.covered g' among present unfinished
  · intro g' among
    by_cases equal : g' = g
    · rw [equal, same]
      exact spread.identity g known
    · rw [others g' equal]
      exact spread.identity g' among
  · intro id member clean
    by_cases own : id ∈ r.ids g
    · exact ⟨g, known, own⟩
    · exact spread.owned id ((elsewhere id own).mp member) clean
  · intro g' among id own clean
    by_cases equal : g' = g
    · subst equal
      rw [here id own clean]
      refine and_congr_right fun _ => ⟨fun live => ⟨_, Multiset.mem_cons_self _ _, rfl, live⟩, ?_⟩
      rintro ⟨p, member, first, live⟩
      cases Multiset.mem_cons.mp member with
      | inl this => rwa [this] at live
      | inr other => exact (spread.absent other first).elim
    · have apart : id ∉ r.ids g := fun shared => equal (r.owners g' among g known id own shared)
      rw [elsewhere id apart, others g' equal, spread.tabled g' among id own clean]
      simp [Ne.symm equal]

theorem relabel
    (finished : (groups g).live = []) : Spread r dirty ((g, status') ::ₘ T) groups tables := by
  refine spread.replace (fun _ _ => rfl) rfl (by simp [finished]) (by simp [finished])
    (fun _ _ => Iff.rfl) fun id own clean => ?_
  rw [spread.here own clean, finished]
  simp

theorem drop (more : dirty ⊆ dirty') (others : ∀ g', g' ≠ g → groups' g' = groups g')
    (same : (groups' g).identity = (groups g).identity) (finished : (groups' g).live = [])
    (elsewhere : ∀ id, id ∉ r.ids g → (id ∈ tables' ↔ id ∈ tables))
    (here : ∀ id ∈ r.ids g, id ∉ dirty' → id ∉ tables') :
    Spread r dirty' T groups' tables' := by
  have moved : Spread r dirty' ((g, status) ::ₘ T) groups' tables' :=
    (spread.mono more).replace others same (by simp [finished]) (by simp [finished]) elsewhere
      fun id own clean => by simp [finished, here id own clean]
  refine ⟨fun p member => moved.known p (Multiset.mem_cons_of_mem member), ?_,
    fun p member => moved.status p (Multiset.mem_cons_of_mem member),
    fun p member => moved.single p (Multiset.mem_cons_of_mem member), ?_, moved.identity,
    moved.owned, ?_⟩
  · exact (Multiset.nodup_cons.mp (by simpa using moved.nodup)).2
  · intro g' among present unfinished
    have placed := moved.covered g' among present unfinished
    rw [Multiset.map_cons, Multiset.mem_cons] at placed
    cases placed with
    | inl equal =>
      rw [equal, finished] at unfinished
      exact (unfinished rfl).elim
    | inr rest => exact rest
  · intro g' among id own clean
    rw [moved.tabled g' among id own clean]
    refine and_congr_right fun unfinished => ?_
    by_cases equal : g' = g
    · rw [equal, finished] at unfinished
      cases unfinished
    · simp [Ne.symm equal]

end

/-- Output processing finishes sequences, and those that had tables may keep them for a while. -/
theorem advance (spread : Spread r dirty T groups tables)
    (progress : ∀ g ∈ r.added, SequenceGroup.Progress (groups g) (groups' g)) :
    Spread r (dirty ∪ {id | ∃ p ∈ T, p.2 ≠ .waiting ∧ id ∈ (groups p.1).live.map Prod.fst ∧
      id ∉ (groups' p.1).live.map Prod.fst}) T groups' tables where
  known := spread.known
  nodup := spread.nodup
  status p member q live :=
    spread.status p member q ((progress _ (spread.known p member)).live.subset live)
  single p member live :=
    (progress _ (spread.known p member)).live.length_le.trans (spread.single p member live)
  covered g known present unfinished := by
    refine spread.covered g known present fun none => unfinished ?_
    have fewer := (progress g known).live
    rw [none] at fewer
    exact List.sublist_nil.mp fewer
  identity g known := (progress g known).identity.trans (spread.identity g known)
  owned id member clean := spread.owned id member fun among => clean (Or.inl among)
  tabled g known id own clean := by
    have fewer := (progress g known).live.map Prod.fst
    have before := spread.tabled g known id own fun among => clean (Or.inl among)
    rw [before]
    refine and_congr_left fun placed => ⟨fun live => ?_, fun live => fewer.subset live⟩
    by_contra gone
    obtain ⟨p, member, rfl, active⟩ := placed
    exact clean (Or.inr ⟨p, member, active, live, gone⟩)

theorem clean {freed : Set SeqId} (spread : Spread r dirty T groups tables)
    (gone : ∀ id ∈ freed, ∀ g ∈ r.added, id ∉ (groups g).live.map Prod.fst) :
    Spread r (dirty \ freed) T groups (tables \ freed) where
  known := spread.known
  nodup := spread.nodup
  status := spread.status
  single := spread.single
  covered := spread.covered
  identity := spread.identity
  owned id member clean := spread.owned id member.1 fun among => clean ⟨among, member.2⟩
  tabled g known id own clean := by
    by_cases free : id ∈ freed
    · have finished := gone id free g known
      simp [free, finished]
    · rw [← spread.tabled g known id own fun among => clean ⟨among, free⟩]
      simp [free]

end Spread

def Registry.stop (r : Registry) (groups : Set GroupRef) : Registry :=
  { r with stopped := r.stopped ∪ groups }

/-- Groups leave that have finished, or that are dropped all the same. -/
theorem Spread.leave {r : Registry} {dirty : Set SeqId} {T U : Multiset Place}
    {groups : GroupRef → SequenceGroup} {tables : Set SeqId} {stopped : Set GroupRef}
    (spread : Spread r dirty (U + T) groups tables)
    (gone : ∀ p ∈ U, (groups p.1).live = [] ∨ p.1 ∈ stopped) :
    Spread (r.stop stopped) (dirty ∪ {id | ∃ p ∈ U, id ∈ (groups p.1).live.map Prod.fst}) T
      groups tables where
  known p member := spread.known p (Multiset.mem_add.mpr (Or.inr member))
  nodup := by
    have all := spread.nodup
    rw [Multiset.map_add, Multiset.nodup_add] at all
    exact all.2.1
  status p member := spread.status p (Multiset.mem_add.mpr (Or.inr member))
  single p member := spread.single p (Multiset.mem_add.mpr (Or.inr member))
  covered g known present unfinished := by
    have placed := spread.covered g known (fun before => present (Or.inl before)) unfinished
    rw [Multiset.map_add, Multiset.mem_add] at placed
    cases placed with
    | inr rest => exact rest
    | inl left =>
      obtain ⟨p, member, rfl⟩ := Multiset.mem_map.mp left
      cases gone p member with
      | inl finished => exact (unfinished finished).elim
      | inr dropped => exact (present (Or.inr dropped)).elim
  identity := spread.identity
  owned id member clean := spread.owned id member fun among => clean (Or.inl among)
  tabled g known id own clean := by
    rw [spread.tabled g known id own fun among => clean (Or.inl among)]
    refine and_congr_right fun live => ⟨?_, ?_⟩
    · rintro ⟨p, member, rfl, active⟩
      cases Multiset.mem_add.mp member with
      | inl left => exact (clean (Or.inr ⟨p, left, live⟩)).elim
      | inr rest => exact ⟨p, rest, rfl, active⟩
    · rintro ⟨p, member, same, active⟩
      exact ⟨p, Multiset.mem_add.mpr (Or.inr member), same, active⟩

structure Placed (r : Registry) (dirty : Set SeqId) (copies : List (BlockId × BlockId))
    (T : Multiset Place) (b : Board) : Prop where
  spread : Spread r dirty T b.groups b.tables
  config : b.schedulerConfig = r.config
  copied : b.copies = copies

/-- Beside the groups in the queues, the groups `held` are at their places. -/
def Holding (r : Registry) (dirty : Set SeqId) (copies : List (BlockId × BlockId))
    (held : Multiset Place) (b : Board) : Prop := Placed r dirty copies (b.places + held) b

namespace Placed

variable {r : Registry} {dirty dirty' : Set SeqId} {copies : List (BlockId × BlockId)}
  {T : Multiset Place} {b : Board} {g : GroupRef} {status : SequenceStatus}

theorem mono (placed : Placed r dirty copies T b) (more : dirty ⊆ dirty') :
    Placed r dirty' copies T b := ⟨placed.spread.mono more, placed.config, placed.copied⟩

section
variable (placed : Placed r dirty copies ((g, status) ::ₘ T) b)
include placed

theorem statuses : ∀ q ∈ (b.groups g).live, q.2 = status :=
  placed.spread.status _ (Multiset.mem_cons_self _ _)

theorem known : g ∈ r.added :=
  placed.spread.known _ (Multiset.mem_cons_self _ _)

theorem ids : (b.groups g).seqIds = r.ids g := placed.spread.seqIds placed.known

end

end Placed

namespace Holding

variable {r : Registry} {dirty dirty' : Set SeqId} {copies copies' : List (BlockId × BlockId)}
  {held held' : Multiset Place} {b b' : Board} {g : GroupRef} {status : SequenceStatus}

theorem requeue (holding : Holding r dirty copies held b) (b' : Board) (same : b' = { b with
      waiting := b'.waiting, running := b'.running, swapped := b'.swapped
      asyncStopped := b'.asyncStopped })
    (places : b'.places + held' = b.places + held) : Holding r dirty copies held' b' := by
  have groups : b'.groups = b.groups := by rw [same]
  have tables : b'.tables = b.tables := by rw [same]
  have config : b'.schedulerConfig = b.schedulerConfig := by rw [same]
  have copied : b'.copies = b.copies := by rw [same]
  refine ⟨?_, config.trans holding.config, copied.trans holding.copied⟩
  rw [places, groups, tables]
  exact holding.spread

theorem placed (holding : Holding r dirty copies ((g, status) ::ₘ held) b) :
    Placed r dirty copies ((g, status) ::ₘ (b.places + held)) b := by
  unfold Holding at holding
  rwa [Multiset.add_cons] at holding

theorem of_placed {status' : SequenceStatus} (places : b'.places = b.places)
    (placed : Placed r dirty copies ((g, status') ::ₘ (b.places + held)) b') :
    Holding r dirty copies ((g, status') ::ₘ held) b' := by
  unfold Holding
  rwa [Multiset.add_cons, places]

end Holding
end Vllm
