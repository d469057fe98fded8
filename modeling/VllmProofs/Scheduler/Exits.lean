import VllmProofs.Scheduler.GroupMoves

/-!
The ways into the scheduler and out of it between two schedules: `add_seq_group`,
`abort_seq_group`, the output of a batch, and `free_finished_seq_groups`.
-/

namespace Vllm
open Exec

variable {u : Unit}

namespace Scheduler

variable {M : Type} [BlockSpaceManager M] [LawfulBlockSpaceManager M] {r : Registry}
  {dirty : Set SeqId} {copies : List (BlockId × BlockId)} {held : Multiset Place}
  {s t : Scheduler M} {g : GroupRef}

/-! ### Finished groups -/

/-- The groups that `free_finished_seq_groups` keeps in the running queue. -/
def remaining (b : Board) : List GroupRef := b.running.filter fun g => !(b.groups g).isFinished

theorem freeFinishedSeqGroups_board (call : freeFinishedSeqGroups s = .ok u t) :
    t.board = { s.board with
      running := remaining s.board
      asyncStopped := []
      tables := s.board.tables \ finishedIds s.board (s.board.running ++ s.board.asyncStopped) } := by
  unfold freeFinishedSeqGroups at call
  rw [get_bind] at call
  obtain ⟨_, v, first, call⟩ := bind_ok call
  have running := freeAll_board (fun _ _ _ _ => freeFinishedSeqGroup_board) first
  rw [modify_bind, get_bind] at call
  obtain ⟨_, w, second, last⟩ := bind_ok call
  have stopped := freeAll_board (fun _ _ _ _ => freeAsyncStopped_board) second
  have board : t.board = { w.board with asyncStopped := [] } := by
    cases last
    rfl
  have middle : Scheduler.board { v with running := v.running.filter fun g => !(v.groups g).isFinished } =
      { v.board with running := remaining v.board } := rfl
  have groups : v.board.groups = s.board.groups := by rw [running]
  have queue : v.board.running = s.board.running := by rw [running]
  have list : v.asyncStopped = s.board.asyncStopped := congrArg Board.asyncStopped running
  have tables : (s.board.tables \ finishedIds s.board s.running) \
      finishedIds s.board s.board.asyncStopped =
      s.board.tables \ finishedIds s.board (s.board.running ++ s.board.asyncStopped) := by
    ext id
    simp only [finishedIds, Set.mem_sdiff, Set.mem_ofPred_eq, List.mem_append, or_and_right,
      exists_or, not_or, and_assoc]
    rfl
  rw [board, stopped, ← tables, middle]
  simp only [remaining, running, list, finishedIds]

theorem freeFinishedSeqGroups_holding (holding : Holding r dirty copies 0 s.board)
    (call : freeFinishedSeqGroups s = .ok u t) :
    Holding (r.stop {g | g ∈ s.asyncStopped})
      (dirty \ finishedIds s.board (s.running ++ s.asyncStopped) ∪
        {id | ∃ g ∈ s.asyncStopped, id ∈ (s.groups g).live.map Prod.fst}) copies 0 t.board := by
  have running : placesOf .running s.board.running = placesOf .running (remaining s.board) +
      placesOf .running (s.board.running.filter fun g => (s.board.groups g).isFinished) := by
    rw [← placesOf_append]
    refine placesOf_perm (List.Perm.symm ?_)
    have split := List.filter_append_perm (fun g => !(s.board.groups g).isFinished) s.board.running
    simpa only [remaining, Bool.not_not] using split
  have known : ∀ g ∈ s.running ++ s.asyncStopped, g ∈ r.added := by
    intro g member
    refine holding.spread.known (g, .running) ?_
    simp only [Board.places, add_zero, Multiset.mem_add, mem_placesOf]
    cases List.mem_append.mp member with
    | inl first => exact Or.inl (Or.inl (Or.inr ⟨first, trivial⟩))
    | inr second => exact Or.inr ⟨second, trivial⟩
  have cleaned := holding.spread.clean (finishedIds_gone holding known)
  have places : s.board.places + 0 =
      (placesOf .running (s.board.running.filter fun g => (s.board.groups g).isFinished) +
        placesOf .running s.board.asyncStopped) +
      (placesOf .waiting s.board.waiting + placesOf .running (remaining s.board) +
        placesOf .swapped s.board.swapped) := by
    rw [Board.places, running]
    abel
  rw [places] at cleaned
  have gone : ∀ p ∈ placesOf .running (s.board.running.filter fun g => (s.board.groups g).isFinished) +
      placesOf .running s.board.asyncStopped,
      (s.board.groups p.1).live = [] ∨ p.1 ∈ {g | g ∈ s.asyncStopped} := by
    intro p member
    cases Multiset.mem_add.mp member with
    | inl finished =>
      have done := (List.mem_filter.mp (mem_placesOf.mp finished).1).2
      exact Or.inl (SequenceGroup.isFinished_iff.mp (by simpa using done))
    | inr stopped => exact Or.inr (mem_placesOf.mp stopped).1
  have left := cleaned.leave gone
  rw [freeFinishedSeqGroups_board call]
  refine ⟨?_, holding.config, holding.copied⟩
  have after : Board.places { s.board with
      running := remaining s.board
      asyncStopped := []
      tables := s.board.tables \ finishedIds s.board (s.board.running ++ s.board.asyncStopped) } + 0 =
      placesOf .waiting s.board.waiting + placesOf .running (remaining s.board) +
        placesOf .swapped s.board.swapped := by
    simp [Board.places]
  rw [after]
  refine left.mono (Set.union_subset_union_right _ ?_)
  rintro id ⟨p, member, live⟩
  cases gone p member with
  | inl finished =>
    rw [finished] at live
    cases live
  | inr stopped => exact ⟨p.1, stopped, live⟩

/-! ### New groups -/

end Scheduler

/-- What the engine promises of a group that it adds: the object, its request id and the ids of
its sequences are new, and every sequence waits. -/
structure Registry.Admits (r : Registry) (g : GroupRef) (seqGroup : SequenceGroup) : Prop where
  object : g ∉ r.added
  request : ∀ g' ∈ r.added, (r.identity g').1 ≠ seqGroup.requestId
  distinct : seqGroup.seqIds.Nodup
  owners : ∀ g' ∈ r.added, ∀ id ∈ seqGroup.seqIds, id ∉ r.ids g'
  waits : ∀ seq ∈ seqGroup.seqs, seq.status = .waiting

def Registry.enter (r : Registry) (g : GroupRef) (seqGroup : SequenceGroup)
    (admits : r.Admits g seqGroup) : Registry where
  added := insert g r.added
  stopped := r.stopped
  config := r.config
  identity := Function.update r.identity g seqGroup.identity
  requests g' known g'' known' same := by
    have new : ∀ g' ∈ r.added, g' ≠ g := fun g' known equal => admits.object (equal ▸ known)
    rcases known with rfl | known
    · rcases known' with rfl | known'
      · rfl
      · rw [Function.update_self, Function.update_of_ne (new g'' known')] at same
        exact (admits.request g'' known' same.symm).elim
    · rw [Function.update_of_ne (new g' known)] at same
      rcases known' with rfl | known'
      · rw [Function.update_self] at same
        exact (admits.request g' known same).elim
      · rw [Function.update_of_ne (new g'' known')] at same
        exact r.requests g' known g'' known' same
  distinct g' known := by
    rcases known with rfl | known
    · rw [Function.update_self]
      exact admits.distinct
    · rw [Function.update_of_ne (show g' ≠ g from fun equal => admits.object (equal ▸ known))]
      exact r.distinct g' known
  owners g' known g'' known' id own own' := by
    have new : ∀ g' ∈ r.added, g' ≠ g := fun g' known equal => admits.object (equal ▸ known)
    rcases known with rfl | known
    · rcases known' with rfl | known'
      · rfl
      · rw [Function.update_self] at own
        rw [Function.update_of_ne (new g'' known')] at own'
        exact (admits.owners g'' known' id own own').elim
    · rw [Function.update_of_ne (new g' known)] at own
      rcases known' with rfl | known'
      · rw [Function.update_self] at own'
        exact (admits.owners g' known id own' own).elim
      · rw [Function.update_of_ne (new g'' known')] at own'
        exact r.owners g' known g'' known' id own own'

theorem Spread.enter {r : Registry} {dirty : Set SeqId} {T : Multiset Place}
    {groups : GroupRef → SequenceGroup} {tables : Set SeqId} {g : GroupRef}
    {seqGroup : SequenceGroup} (spread : Spread r dirty T groups tables)
    (admits : r.Admits g seqGroup) :
    Spread (r.enter g seqGroup admits) dirty ((g, .waiting) ::ₘ T)
      (Function.update groups g seqGroup) tables := by
  have new : ∀ g' ∈ r.added, g' ≠ g := fun g' known equal => admits.object (equal ▸ known)
  have old : ∀ p ∈ T, Function.update groups g seqGroup p.1 = groups p.1 := fun p member =>
    Function.update_of_ne (new _ (spread.known p member)) _ _
  have ids : ∀ g' ∈ r.added, (r.enter g seqGroup admits).ids g' = r.ids g' := fun g' known =>
    congrArg Prod.snd (Function.update_of_ne (new g' known) _ _)
  refine ⟨?_, ?_, ?_, ?_, ?_, ?_, ?_, ?_⟩
  · intro p member
    cases Multiset.mem_cons.mp member with
    | inl first => exact Or.inl (congrArg Prod.fst first)
    | inr other => exact Or.inr (spread.known p other)
  · rw [Multiset.map_cons, Multiset.nodup_cons]
    refine ⟨fun among => ?_, spread.nodup⟩
    obtain ⟨p, member, same⟩ := Multiset.mem_map.mp among
    exact new _ (spread.known p member) same
  · intro p member q live
    cases Multiset.mem_cons.mp member with
    | inl first =>
      subst first
      rw [Function.update_self] at live
      obtain ⟨seq, among, -, rfl⟩ := SequenceGroup.mem_live.mp live
      exact admits.waits seq among
    | inr other =>
      rw [old p other] at live
      exact spread.status p other q live
  · intro p member active
    cases Multiset.mem_cons.mp member with
    | inl first => exact (active (congrArg Prod.snd first)).elim
    | inr other =>
      rw [old p other]
      exact spread.single p other active
  · intro g' known present unfinished
    rw [Multiset.map_cons, Multiset.mem_cons]
    cases known with
    | inl equal => exact Or.inl equal
    | inr known =>
      rw [Function.update_of_ne (new g' known)] at unfinished
      exact Or.inr (spread.covered g' known present unfinished)
  · intro g' known
    show _ = Function.update r.identity g seqGroup.identity g'
    cases known with
    | inl equal =>
      subst equal
      rw [Function.update_self, Function.update_self]
    | inr known =>
      rw [Function.update_of_ne (new g' known), Function.update_of_ne (new g' known)]
      exact spread.identity g' known
  · intro id member clean
    obtain ⟨g', known, own⟩ := spread.owned id member clean
    exact ⟨g', Or.inr known, by rwa [ids g' known]⟩
  · intro g' known id own clean
    cases known with
    | inl equal =>
      subst equal
      have mine : id ∈ seqGroup.seqIds := by
        change id ∈ (Function.update r.identity g' seqGroup.identity g').2 at own
        rwa [Function.update_self] at own
      have absent : id ∉ tables := by
        intro member
        obtain ⟨g, known, own⟩ := spread.owned id member clean
        exact admits.owners g known id mine own
      refine iff_of_false absent ?_
      rintro ⟨-, p, member, same, active⟩
      cases Multiset.mem_cons.mp member with
      | inl first => exact active (congrArg Prod.snd first)
      | inr other => exact new _ (spread.known p other) same
    | inr known =>
      rw [ids g' known] at own
      rw [Function.update_of_ne (new g' known), spread.tabled g' known id own clean]
      simp [Ne.symm (new g' known)]

namespace Scheduler

variable {M : Type} [BlockSpaceManager M] [LawfulBlockSpaceManager M] {r : Registry}
  {dirty : Set SeqId} {copies : List (BlockId × BlockId)} {held : Multiset Place}
  {s t : Scheduler M} {g : GroupRef}

theorem addSeqGroup_holding (holding : Holding r dirty copies 0 s.board) {seqGroup : SequenceGroup}
    (admits : r.Admits g seqGroup) (call : addSeqGroup g seqGroup s = .ok u t) :
    Holding (r.enter g seqGroup admits) dirty copies 0 t.board := by
  cases call
  refine ⟨?_, holding.config, holding.copied⟩
  have entered := holding.spread.enter admits
  have places : Board.places { s.board with
      groups := Function.update s.board.groups g seqGroup
      waiting := s.board.waiting ++ [g] } + 0 = (g, .waiting) ::ₘ (s.board.places + 0) := by
    simp only [Board.places, placesOf_append, placesOf_cons, placesOf_nil, ← Multiset.singleton_add]
    abel
  rw [← places] at entered
  exact entered

/-! ### Aborted groups -/

def unfinishedIds (seqs : List Sequence) : List SeqId :=
  (seqs.filter fun seq => !seq.isFinished).map Sequence.seqId

def aborted (ids : List SeqId) : SequenceGroup → SequenceGroup :=
  SequenceGroup.mapSeqs fun seq =>
    if seq.seqId ∈ ids then { seq with status := .finishedAborted } else seq

theorem aborted_nil (seqGroup : SequenceGroup) : aborted [] seqGroup = seqGroup := by
  simp [aborted, SequenceGroup.mapSeqs]

theorem aborted_cons (id : SeqId) (ids : List SeqId) (seqGroup : SequenceGroup) :
    aborted ids (aborted [id] seqGroup) = aborted (id :: ids) seqGroup := by
  have each : ∀ seq : Sequence,
      (let first := if seq.seqId ∈ [id] then { seq with status := .finishedAborted } else seq
       if first.seqId ∈ ids then { first with status := .finishedAborted } else first) =
      if seq.seqId ∈ id :: ids then { seq with status := .finishedAborted } else seq := by
    intro seq
    by_cases first : seq.seqId = id
    · simp [first]
    · simp [first]
  simp only [aborted, SequenceGroup.mapSeqs, List.map_map]
  congr 1
  · exact each _
  · exact List.map_congr_left fun seq _ => each seq

theorem abortSeqs_board {seqs : List Sequence} (call : seqs.forM (abortSeq g) s = .ok u t) :
    t.board = { s.board with
      groups := Function.update s.board.groups g (aborted (unfinishedIds seqs) (s.board.groups g))
      tables := s.board.tables \ {id | id ∈ unfinishedIds seqs} } := by
  induction seqs generalizing s with
  | nil =>
    cases call
    simp [unfinishedIds, aborted_nil]
  | cons seq rest ih =>
    obtain ⟨_, v, first, last⟩ :=
      bind_ok (show (abortSeq g seq >>= fun _ => rest.forM (abortSeq g)) s = _ from call)
    rw [ih last]
    unfold abortSeq at first
    cases done : seq.isFinished with
    | true =>
      simp only [done] at first
      cases first
      simp [unfinishedIds, done]
    | false =>
      simp only [done] at first
      obtain ⟨_, w, marked, freed⟩ := bind_ok first
      have more : unfinishedIds (seq :: rest) = seq.seqId :: unfinishedIds rest := by
        simp [unfinishedIds, done]
      have one : ∀ seqGroup : SequenceGroup, (seqGroup.mapSeqs fun seq' =>
          if seq'.seqId = seq.seqId then { seq' with status := .finishedAborted } else seq') =
          aborted [seq.seqId] seqGroup := by
        intro seqGroup
        simp [aborted]
      have tables : (s.board.tables \ {seq.seqId}) \ {id | id ∈ unfinishedIds rest} =
          s.board.tables \ {id | id ∈ seq.seqId :: unfinishedIds rest} := by
        ext id
        simp [and_assoc]
      rw [more, ← aborted_cons, ← tables, freeSeq_board freed, updateGroup_board marked]
      dsimp only
      rw [Function.update_self, Function.update_idem, one]

theorem aborted_identity (ids : List SeqId) (seqGroup : SequenceGroup) :
    (aborted ids seqGroup).identity = seqGroup.identity := by
  refine SequenceGroup.mapSeqs_identity (fun seq => ?_) seqGroup
  split
  · rfl
  · rfl

theorem aborted_live (seqGroup : SequenceGroup) :
    (aborted (unfinishedIds seqGroup.seqs) seqGroup).live = [] := by
  refine SequenceGroup.mapSeqs_finished fun seq among => ?_
  split
  · rfl
  · rename_i spared
    by_contra unfinished
    refine spared (List.mem_map_of_mem (List.mem_filter.mpr ⟨among, ?_⟩))
    simpa using unfinished

theorem abortGroup_board (call : abortGroup g s = .ok u t) : t.board = { s.board with
      groups := Function.update s.board.groups g
        (aborted (unfinishedIds (s.board.groups g).seqs) (s.board.groups g))
      tables := s.board.tables \ {id | id ∈ unfinishedIds (s.board.groups g).seqs} } := by
  unfold abortGroup at call
  obtain ⟨_, v, added, call⟩ := bind_ok call
  obtain ⟨seqGroup, w, first, last⟩ := bind_ok call
  obtain ⟨rfl, rfl⟩ := group_call first
  have same := addFinishedRequest_board g _ _ _ added
  rw [abortSeqs_board last, same]

variable {status : SequenceStatus}

theorem abortGroup_holding (holding : Holding r dirty copies ((g, status) ::ₘ held) s.board)
    (call : abortGroup g s = .ok u t) : Holding r dirty copies held t.board := by
  have names : unfinishedIds (s.board.groups g).seqs = (s.board.groups g).live.map Prod.fst := by
    simp [unfinishedIds, SequenceGroup.live]
  rw [abortGroup_board call]
  refine holding.placed.finish subset_rfl (aborted_identity _ _) (aborted_live _) ?_ ?_
  · intro id other
    have unnamed : id ∉ unfinishedIds (s.board.groups g).seqs := by
      intro member
      rw [names] at member
      exact other (holding.placed.ids ▸ SequenceGroup.seqIds_of_live member)
    simp [unnamed]
  · intro id mine clean member
    have before := (holding.placed.spread.here mine clean).mp member.1
    exact member.2 (by rw [Set.mem_ofPred_eq, names]; exact before.1)

structure IsQueue (status : SequenceStatus) (queue : Scheduler M → List GroupRef)
    (withQueue : List GroupRef → Scheduler M → Scheduler M) : Prop where
  read : ∀ q (s : Scheduler M), queue (withQueue q s) = q
  board : ∀ s t : Scheduler M, t.board = { s.board with groups := t.board.groups, tables := t.board.tables } →
    queue t = queue s
  nodup : ∀ {r dirty copies held} {s : Scheduler M}, Holding r dirty copies held s.board → (queue s).Nodup
  take : ∀ {r dirty copies held} {s : Scheduler M} {g}, Holding r dirty copies held s.board →
    g ∈ queue s → Holding r dirty copies ((g, status) ::ₘ held) (withQueue ((queue s).erase g) s).board

variable {queue : Scheduler M → List GroupRef}
  {withQueue : List GroupRef → Scheduler M → Scheduler M}

theorem abortGroups_holding (isQueue : IsQueue status queue withQueue)
    {groups : List GroupRef} (distinct : groups.Nodup) (queued : ∀ g ∈ groups, g ∈ queue s)
    (holding : Holding r dirty copies held s.board)
    (call : groups.forM (abortFrom queue withQueue) s = .ok u t) :
    Holding r dirty copies held t.board := by
  induction groups generalizing s with
  | nil =>
    cases call
    exact holding
  | cons g rest ih =>
    obtain ⟨_, v, first, last⟩ := bind_ok
      (show (abortFrom queue withQueue g >>= fun _ => rest.forM (abortFrom queue withQueue)) s = _ from call)
    unfold abortFrom at first
    rw [modify_bind] at first
    have taken := isQueue.take holding (queued g List.mem_cons_self)
    have board := abortGroup_board first
    have same : queue v = (queue s).erase g :=
      (isQueue.board (withQueue ((queue s).erase g) s) v (by rw [board])).trans (isQueue.read _ _)
    refine ih (List.nodup_cons.mp distinct).2 (fun g' member => ?_) (abortGroup_holding taken first) last
    rw [same]
    refine (List.mem_erase_of_ne ?_).mpr (queued g' (List.mem_cons_of_mem _ member))
    rintro rfl
    exact (List.nodup_cons.mp distinct).1 member

variable {groupIds : Dict String String}

theorem abortQueue_holding (isQueue : IsQueue status queue withQueue)
    {requestIds : List String} {groupIds' : Dict String String}
    (holding : Holding r dirty copies held s.board)
    (call : abortQueue queue withQueue requestIds groupIds s = .ok groupIds' t) :
    Holding r dirty copies held t.board := by
  unfold abortQueue at call
  rw [get_bind] at call
  obtain ⟨_, v, first, last⟩ := bind_ok call
  cases last
  refine abortGroups_holding isQueue ?_ ?_ holding first
  · exact (isQueue.nodup holding).filter _
  · exact fun g member => (List.mem_filter.mp member).1

theorem erase_places {queue : List GroupRef} (member : g ∈ queue) :
    placesOf status queue = (g, status) ::ₘ placesOf status (queue.erase g) :=
  placesOf_perm (List.perm_cons_erase member)

theorem queue_nodup {queue : List GroupRef} {T : Multiset Place}
    (holding : Holding r dirty copies held s.board)
    (among : s.board.places = placesOf status queue + T) : queue.Nodup := by
  have all := holding.spread.nodup
  rw [among, Multiset.map_add, Multiset.map_add, Multiset.nodup_add, Multiset.nodup_add,
    map_placesOf] at all
  exact Multiset.coe_nodup.mp all.1.1

theorem isQueue_waiting :
    IsQueue (M := M) .waiting waiting (fun waiting s => { s with waiting }) := by
  refine ⟨fun _ _ => rfl, fun s t same => congrArg Board.waiting same, ?_, ?_⟩
  · intro r dirty copies held s holding
    have split : s.board.places = placesOf .waiting s.board.waiting + (placesOf .running s.board.running +
        placesOf .swapped s.board.swapped + placesOf .running s.board.asyncStopped) := by
      rw [Board.places]
      abel
    exact queue_nodup holding split
  · intro r dirty copies held s g holding member
    refine holding.requeue { s.board with waiting := s.board.waiting.erase g } rfl ?_
    have split : placesOf .waiting s.board.waiting = _ := erase_places member
    simp only [Board.places, split, ← Multiset.singleton_add]
    abel

theorem isQueue_running :
    IsQueue (M := M) .running running (fun running s => { s with running }) := by
  refine ⟨fun _ _ => rfl, fun s t same => congrArg Board.running same, ?_, ?_⟩
  · intro r dirty copies held s holding
    have split : s.board.places = placesOf .running s.board.running + (placesOf .waiting s.board.waiting +
        placesOf .swapped s.board.swapped + placesOf .running s.board.asyncStopped) := by
      rw [Board.places]
      abel
    exact queue_nodup holding split
  · intro r dirty copies held s g holding member
    refine holding.requeue { s.board with running := s.board.running.erase g } rfl ?_
    have split : placesOf .running s.board.running = _ := erase_places member
    simp only [Board.places, split, ← Multiset.singleton_add]
    abel

theorem isQueue_swapped :
    IsQueue (M := M) .swapped swapped (fun swapped s => { s with swapped }) := by
  refine ⟨fun _ _ => rfl, fun s t same => congrArg Board.swapped same, ?_, ?_⟩
  · intro r dirty copies held s holding
    have split : s.board.places = placesOf .swapped s.board.swapped + (placesOf .waiting s.board.waiting +
        placesOf .running s.board.running + placesOf .running s.board.asyncStopped) := by
      rw [Board.places]
      abel
    exact queue_nodup holding split
  · intro r dirty copies held s g holding member
    refine holding.requeue { s.board with swapped := s.board.swapped.erase g } rfl ?_
    have split : placesOf .swapped s.board.swapped = _ := erase_places member
    simp only [Board.places, split, ← Multiset.singleton_add]
    abel

theorem abortSeqGroup_holding {requestIds : List String}
    (holding : Holding r dirty copies held s.board)
    (call : abortSeqGroup requestIds groupIds s = .ok u t) : Holding r dirty copies held t.board := by
  unfold abortSeqGroup at call
  obtain ⟨_, v, first, call⟩ := bind_ok call
  obtain ⟨_, w, second, call⟩ := bind_ok call
  obtain ⟨_, x, third, last⟩ := bind_ok call
  cases last
  have waiting := abortQueue_holding isQueue_waiting holding first
  have running := abortQueue_holding isQueue_running waiting second
  exact abortQueue_holding isQueue_swapped running third

end Scheduler
end Vllm
