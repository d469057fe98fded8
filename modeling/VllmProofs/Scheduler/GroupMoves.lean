import VllmProofs.Scheduler.Placement

/-!
How the methods that allocate, preempt, swap and free one sequence group move it.
-/

namespace Vllm
open Exec

namespace Placed

variable {r : Registry} {dirty : Set SeqId} {copies : List (BlockId × BlockId)}
  {T : Multiset Place} {b : Board} {g : GroupRef} {status status' : SequenceStatus}
  {seqGroup : SequenceGroup} {tables : Set SeqId}

theorem become (placed : Placed r dirty copies ((g, status) ::ₘ T) b)
    (same : seqGroup.identity = (b.groups g).identity) (statuses : ∀ q ∈ seqGroup.live, q.2 = status')
    (single : status' ≠ .waiting → seqGroup.live.length ≤ 1)
    (elsewhere : ∀ id, id ∉ r.ids g → (id ∈ tables ↔ id ∈ b.tables))
    (here : ∀ id ∈ r.ids g, id ∉ dirty →
      (id ∈ tables ↔ id ∈ seqGroup.live.map Prod.fst ∧ status' ≠ .waiting)) :
    Placed r dirty copies ((g, status') ::ₘ T)
      { b with groups := Function.update b.groups g seqGroup, tables } := by
  refine ⟨?_, placed.config, placed.copied⟩
  have now : Function.update b.groups g seqGroup g = seqGroup := Function.update_self g _ _
  show Spread r dirty ((g, status') ::ₘ T) (Function.update b.groups g seqGroup) tables
  refine placed.spread.replace (fun g' other => Function.update_of_ne other _ _) ?_ ?_ ?_
    elsewhere ?_
  · rw [now, same]
  · rw [now]
    exact statuses
  · rw [now]
    exact single
  · rw [now]
    exact here

theorem finish (placed : Placed r dirty copies ((g, status) ::ₘ T) b) {dirty' : Set SeqId}
    (more : dirty ⊆ dirty') (same : seqGroup.identity = (b.groups g).identity)
    (finished : seqGroup.live = []) (elsewhere : ∀ id, id ∉ r.ids g → (id ∈ tables ↔ id ∈ b.tables))
    (here : ∀ id ∈ r.ids g, id ∉ dirty' → id ∉ tables) :
    Placed r dirty' copies T { b with groups := Function.update b.groups g seqGroup, tables } := by
  refine ⟨?_, placed.config, placed.copied⟩
  have now : Function.update b.groups g seqGroup g = seqGroup := Function.update_self g _ _
  show Spread r dirty' T (Function.update b.groups g seqGroup) tables
  refine placed.spread.drop more (fun g' other => Function.update_of_ne other _ _) ?_ ?_
    elsewhere here
  · rw [now, same]
  · rw [now, finished]

theorem setStatus (status' : SequenceStatus) (placed : Placed r dirty copies ((g, status) ::ₘ T) b)
    (unfinished : status.isFinished = false) (remains : status'.isFinished = false)
    (active : status ≠ .waiting) (still : status' ≠ .waiting) :
    Placed r dirty copies ((g, status') ::ₘ T)
      { b with groups := Function.update b.groups g (.setStatus status status' (b.groups g)) } := by
  have live := SequenceGroup.setStatus_live status status' unfinished remains placed.statuses
  have names : ((b.groups g).setStatus status status').live.map Prod.fst =
      (b.groups g).live.map Prod.fst := by
    rw [live, List.map_map]
    rfl
  refine placed.become (SequenceGroup.setStatus_identity _ _ _) ?_ (fun _ => ?_)
    (fun _ _ => Iff.rfl) fun id own clean => ?_
  · rw [live]
    intro q member
    obtain ⟨_, -, rfl⟩ := List.mem_map.mp member
    rfl
  · rw [live, List.length_map]
    exact placed.spread.single _ (Multiset.mem_cons_self _ _) active
  · rw [names, placed.spread.here own clean]
    simp [active, still]

end Placed

namespace Scheduler

variable {M : Type} [BlockSpaceManager M] [LawfulBlockSpaceManager M] {r : Registry}
  {dirty : Set SeqId} {copies mapping : List (BlockId × BlockId)} {T : Multiset Place}
  {s t : Scheduler M} {g : GroupRef}

theorem group_call {seqGroup : SequenceGroup} (call : group g s = .ok seqGroup t) :
    seqGroup = s.board.groups g ∧ t = s := by
  cases call
  exact ⟨rfl, rfl⟩

variable {u : Unit}

theorem updateGroup_board {f : SequenceGroup → SequenceGroup} (call : updateGroup g f s = .ok u t) :
    t.board = { s.board with groups := Function.update s.board.groups g (f (s.board.groups g)) } := by
  cases call
  rfl

theorem swapOut_board (call : swapOut g s = .ok mapping t) : t.board = { s.board with
      groups := Function.update s.board.groups g (.setStatus .running .swapped (s.board.groups g))
      copies := s.board.copies ++ mapping } := by
  unfold swapOut at call
  obtain ⟨seqGroup, u, first, call⟩ := bind_ok call
  obtain ⟨rfl, rfl⟩ := group_call first
  obtain ⟨can, v, asked, call⟩ := bind_ok call
  have same := onManager_board (LawfulBlockSpaceManager.canSwapOut _) _ _ _ asked
  cases can with
  | false => cases call
  | true =>
    rw [if_pos rfl] at call
    obtain ⟨mapping', w, swapped, call⟩ := bind_ok call
    have again := onManager_board (LawfulBlockSpaceManager.swapOut _) _ _ _ swapped
    cases call
    rw [← same, ← again]
    rfl

theorem swapOut_placed (placed : Placed r dirty copies ((g, .running) ::ₘ T) s.board)
    (call : swapOut g s = .ok mapping t) :
    Placed r dirty (copies ++ mapping) ((g, .swapped) ::ₘ T) t.board := by
  have after := placed.setStatus .swapped rfl rfl (by decide) (by decide)
  rw [swapOut_board call]
  exact ⟨after.spread, after.config, congrArg (· ++ mapping) after.copied⟩

theorem swapOut_nothing (finished : (s.board.groups g).live = []) (call : swapOut g s = .ok mapping t) :
    mapping = [] ∧ (t.board.groups g).live = [] := by
  refine ⟨?_, ?_⟩
  · unfold swapOut at call
    obtain ⟨seqGroup, u, first, call⟩ := bind_ok call
    obtain ⟨rfl, rfl⟩ := group_call first
    obtain ⟨can, v, asked, call⟩ := bind_ok call
    cases can with
    | false => cases call
    | true =>
      rw [if_pos rfl] at call
      obtain ⟨mapping', w, swapped, call⟩ := bind_ok call
      cases call
      obtain ⟨manager, inner, rfl⟩ := zoom_ok swapped
      have none := SequenceGroup.getSeqs_finished .running rfl finished
      exact (LawfulBlockSpaceManager.swapOutNothing _ _ none).ok inner
  · have live := SequenceGroup.setStatus_live .running .swapped rfl rfl
      (s := s.board.groups g) (by simp [finished])
    rw [swapOut_board call]
    dsimp only
    rw [Function.update_self, live, finished]
    rfl

theorem swapIn_placed (placed : Placed r dirty copies ((g, .swapped) ::ₘ T) s.board)
    (call : swapIn g s = .ok mapping t) : Placed r dirty copies ((g, .running) ::ₘ T) t.board := by
  unfold swapIn at call
  obtain ⟨seqGroup, u, first, call⟩ := bind_ok call
  obtain ⟨rfl, rfl⟩ := group_call first
  obtain ⟨mapping', v, swapped, call⟩ := bind_ok call
  have same := onManager_board (LawfulBlockSpaceManager.swapIn _) _ _ _ swapped
  cases call
  have before : Placed r dirty copies ((g, .swapped) ::ₘ T) v.board := by
    rw [same]
    exact placed
  exact before.setStatus .running rfl rfl (by decide) (by decide)

theorem freeSeq_board {seq : Sequence} (call : freeSeq seq s = .ok u t) :
    t.board = { s.board with tables := s.board.tables \ {seq.seqId} } := by
  unfold freeSeq onManager at call
  obtain ⟨manager, freed, rfl⟩ := zoom_ok call
  have tables := (LawfulBlockSpaceManager.free seq s.blockManager).ok freed
  unfold board
  rw [← tables]

theorem freeSeqs_board {seqs : List Sequence} (call : seqs.forM freeSeq s = .ok u t) :
    t.board = { s.board with tables := s.board.tables \ {id | id ∈ seqs.map Sequence.seqId} } := by
  induction seqs generalizing s with
  | nil =>
    cases call
    simp
  | cons seq rest ih =>
    obtain ⟨_, v, first, call⟩ := bind_ok (show (freeSeq seq >>= fun _ => rest.forM freeSeq) s = _ from call)
    have tables : (s.board.tables \ {seq.seqId}) \ {id | id ∈ rest.map Sequence.seqId} =
        s.board.tables \ {id | id ∈ (seq :: rest).map Sequence.seqId} := by
      ext id
      simp only [Set.mem_sdiff, Set.mem_singleton_iff, Set.mem_ofPred_eq, List.map_cons,
        List.mem_cons]
      tauto
    rw [ih call, freeSeq_board first, ← tables]

/-- The one running sequence waits again, from the start. -/
def recomputed (seqId : SeqId) (seqGroup : SequenceGroup) : SequenceGroup :=
  (seqGroup.setStatus .running .waiting).mapSeqs fun seq =>
    if seq.seqId = seqId then seq.resetStateForRecompute else seq

theorem recomputed_identity (seqId : SeqId) (seqGroup : SequenceGroup) :
    (recomputed seqId seqGroup).identity = seqGroup.identity := by
  refine (SequenceGroup.mapSeqs_identity (fun seq => ?_) _).trans
    (SequenceGroup.setStatus_identity _ _ _)
  split
  · rfl
  · rfl

theorem recomputed_live {seqId : SeqId} {seqGroup : SequenceGroup}
    (all : ∀ q ∈ seqGroup.live, q.2 = .running) :
    (recomputed seqId seqGroup).live = seqGroup.live.map fun q => (q.1, .waiting) := by
  have first := SequenceGroup.setStatus_live .running .waiting rfl rfl all
  have second : (recomputed seqId seqGroup).live =
      (seqGroup.setStatus .running .waiting).live.map fun q => (q.1, q.2) := by
    refine SequenceGroup.mapSeqs_live (g := fun status => status) (fun seq _ => ?_) fun seq _ _ => ?_
    · split
      · rfl
      · rfl
    · split
      · exact ⟨rfl, rfl⟩
      · exact ⟨rfl, rfl⟩
  rw [second, List.map_id', first]

theorem preemptByRecompute_placed (placed : Placed r dirty copies ((g, .running) ::ₘ T) s.board) (call : preemptByRecompute g s = .ok u t) :
    Placed r dirty copies ((g, .waiting) ::ₘ T) t.board := by
  unfold preemptByRecompute at call
  obtain ⟨seqGroup, v, first, call⟩ := bind_ok call
  obtain ⟨rfl, rfl⟩ := group_call first
  have live := SequenceGroup.getSeqs_live .running rfl placed.statuses
  cases running : (v.board.groups g).getSeqs .running with
  | nil =>
    simp only [running] at call
    cases call
  | cons seq rest =>
    cases rest with
    | cons _ _ =>
      simp only [running] at call
      cases call
    | nil =>
      simp only [running] at call
      obtain ⟨_, w, started, next⟩ := bind_ok call
      obtain ⟨_, x, freed, last⟩ := bind_ok next
      have names : (v.board.groups g).live.map Prod.fst = [seq.seqId] := by
        rw [← live, running]
        rfl
      have own : seq.seqId ∈ r.ids g := by
        rw [← placed.ids]
        exact SequenceGroup.seqIds_of_live (by rw [names]; exact List.mem_singleton_self _)
      rw [updateGroup_board last, freeSeq_board freed, updateGroup_board started]
      dsimp only
      rw [Function.update_self, Function.update_idem]
      have waits : ∀ q ∈ (recomputed seq.seqId (v.board.groups g)).live, q.2 = .waiting := by
        rw [recomputed_live placed.statuses]
        intro q member
        obtain ⟨_, -, rfl⟩ := List.mem_map.mp member
        rfl
      refine placed.become (recomputed_identity seq.seqId _) waits (fun still => absurd rfl still) ?_ ?_
      · intro id other
        have different : id ≠ seq.seqId := by
          rintro rfl
          exact other own
        simp [different]
      · intro id mine clean
        have here := placed.spread.here mine clean
        rw [names] at here
        simp only [Set.mem_sdiff, Set.mem_singleton_iff, here, List.mem_singleton]
        simp

def preemptedStatus : PreemptionMode → SequenceStatus
  | .recompute => .waiting
  | .swap => .swapped

theorem preempt_placed (placed : Placed r dirty copies ((g, .running) ::ₘ T) s.board)
    {mode : PreemptionMode} (call : preempt g s = .ok (mode, mapping) t) :
    Placed r dirty (copies ++ mapping) ((g, preemptedStatus mode) ::ₘ T) t.board ∧
      mode = preemptionMode r.config (s.board.groups g) ∧
      (mode = .recompute → mapping = []) ∧
      (mode = .swap → (s.board.groups g).live = [] → mapping = [] ∧ (t.board.groups g).live = []) := by
  unfold preempt at call
  obtain ⟨seqGroup, u, first, call⟩ := bind_ok call
  obtain ⟨rfl, rfl⟩ := group_call first
  rw [get_bind] at call
  have config : u.schedulerConfig = r.config := placed.config
  rw [config] at call
  cases chosen : preemptionMode r.config (u.board.groups g) with
  | recompute =>
    simp only [chosen] at call
    obtain ⟨_, v, preempted, last⟩ := bind_ok call
    cases last
    rw [List.append_nil]
    refine ⟨preemptByRecompute_placed placed preempted, rfl, fun _ => rfl, fun other => ?_⟩
    cases other
  | swap =>
    simp only [chosen] at call
    obtain ⟨mapping', v, swapped, last⟩ := bind_ok call
    cases last
    refine ⟨swapOut_placed placed swapped, rfl, fun other => ?_, fun _ finished => ?_⟩
    · cases other
    · exact swapOut_nothing finished swapped

theorem allocateAndSetRunning_placed (placed : Placed r dirty copies ((g, .waiting) ::ₘ T) s.board)
    (one : ((s.board.groups g).getSeqs .waiting).length = 1)
    (call : allocateAndSetRunning g s = .ok u t) :
    Placed r dirty copies ((g, .running) ::ₘ T) t.board := by
  unfold allocateAndSetRunning at call
  obtain ⟨seqGroup, v, first, call⟩ := bind_ok call
  obtain ⟨rfl, rfl⟩ := group_call first
  obtain ⟨_, w, allocated, last⟩ := bind_ok call
  have board : w.board = { v.board with tables := v.board.tables ∪
      {id | id ∈ ((v.board.groups g).getSeqs .waiting).map Sequence.seqId} } := by
    obtain ⟨manager, inner, rfl⟩ := zoom_ok allocated
    have tables := (LawfulBlockSpaceManager.allocate _ v.blockManager).ok inner
    show { v.board with tables := LawfulBlockSpaceManager.tables manager } = _
    rw [tables]
    rfl
  have waiting := SequenceGroup.getSeqs_live .waiting rfl placed.statuses
  have names : ((v.board.groups g).getSeqs .waiting).map Sequence.seqId =
      (v.board.groups g).live.map Prod.fst := by
    rw [← waiting, List.map_map]
    rfl
  have live := SequenceGroup.setStatus_live .waiting .running rfl rfl placed.statuses
  rw [updateGroup_board last, board, names]
  dsimp only
  refine placed.become (SequenceGroup.setStatus_identity _ _ _) ?_ (fun _ => ?_) ?_ ?_
  · rw [live]
    intro q member
    obtain ⟨_, -, rfl⟩ := List.mem_map.mp member
    rfl
  · rw [live, List.length_map, ← waiting, List.length_map, one]
  · intro id other
    have unnamed : id ∉ (v.board.groups g).live.map Prod.fst := by
      intro member
      exact other (placed.ids ▸ SequenceGroup.seqIds_of_live member)
    rw [Set.mem_union]
    exact or_iff_left unnamed
  · intro id mine clean
    have here := placed.spread.here mine clean
    have same : ((v.board.groups g).setStatus .waiting .running).live.map Prod.fst =
        (v.board.groups g).live.map Prod.fst := by
      rw [live, List.map_map]
      rfl
    rw [same, Set.mem_union, here]
    simp

/-! ### Freeing finished sequences -/

def finishedIds (b : Board) (queue : List GroupRef) : Set SeqId :=
  {id | ∃ g ∈ queue, ∃ seq ∈ (b.groups g).seqs, seq.isFinished = true ∧ seq.seqId = id}

theorem finishedIds_gone {b : Board} (placed : Placed r dirty copies T b) {queue : List GroupRef}
    (known : ∀ g ∈ queue, g ∈ r.added) :
    ∀ id ∈ finishedIds b queue, ∀ g ∈ r.added, id ∉ (b.groups g).live.map Prod.fst := by
  rintro _ ⟨g, member, seq, among, finished, rfl⟩ g' known' live
  have own : seq.seqId ∈ r.ids g := by
    rw [← placed.spread.seqIds (known g member)]
    exact List.mem_map_of_mem among
  have mine : seq.seqId ∈ r.ids g' := by
    rw [← placed.spread.seqIds known']
    exact SequenceGroup.seqIds_of_live live
  cases r.owners g (known g member) g' known' _ own mine
  refine SequenceGroup.finished_not_live ?_ among finished live
  rw [placed.spread.seqIds known']
  exact r.distinct g known'

theorem freeFinishedSeqs_board (call : freeFinishedSeqs g s = .ok u t) :
    t.board = { s.board with tables := s.board.tables \ finishedIds s.board [g] } := by
  unfold freeFinishedSeqs at call
  obtain ⟨seqGroup, v, first, call⟩ := bind_ok call
  obtain ⟨rfl, rfl⟩ := group_call first
  have ids : {id | id ∈ ((v.board.groups g).seqs.filter Sequence.isFinished).map Sequence.seqId} =
      finishedIds v.board [g] := by
    ext id
    simp [finishedIds, and_assoc]
  rw [freeSeqs_board call, ids]

theorem freeFinishedSeqGroup_board (call : freeFinishedSeqGroup g s = .ok u t) :
    t.board = { s.board with tables := s.board.tables \ finishedIds s.board [g] } := by
  unfold freeFinishedSeqGroup at call
  obtain ⟨seqGroup, v, first, call⟩ := bind_ok call
  obtain ⟨rfl, rfl⟩ := group_call first
  split at call
  · obtain ⟨_, w, added, last⟩ := bind_ok call
    have same := addFinishedRequest_board g _ _ _ added
    rw [freeFinishedSeqs_board last, same]
  · exact freeFinishedSeqs_board call

theorem freeAsyncStopped_board (call : freeAsyncStopped g s = .ok u t) :
    t.board = { s.board with tables := s.board.tables \ finishedIds s.board [g] } := by
  unfold freeAsyncStopped at call
  obtain ⟨_, w, added, last⟩ := bind_ok call
  have same := addFinishedRequest_board g _ _ _ added
  rw [freeFinishedSeqs_board last, same]

theorem freeAll_board {free : GroupRef → Method (Scheduler M) Unit}
    (each : ∀ g (s t : Scheduler M) u, free g s = .ok u t →
      t.board = { s.board with tables := s.board.tables \ finishedIds s.board [g] })
    {queue : List GroupRef} (call : queue.forM free s = .ok u t) :
    t.board = { s.board with tables := s.board.tables \ finishedIds s.board queue } := by
  induction queue generalizing s with
  | nil =>
    cases call
    simp [finishedIds]
  | cons g rest ih =>
    obtain ⟨_, v, first, last⟩ := bind_ok (show (free g >>= fun _ => rest.forM free) s = _ from call)
    have one := each g s v _ first
    have groups : v.board.groups = s.board.groups := by rw [one]
    have tables : (s.board.tables \ finishedIds s.board [g]) \ finishedIds v.board rest =
        s.board.tables \ finishedIds s.board (g :: rest) := by
      ext id
      simp only [finishedIds, groups, Set.mem_sdiff, Set.mem_ofPred_eq, List.mem_cons,
        List.not_mem_nil, or_false, exists_eq_left, exists_eq_or_imp, and_assoc, not_or]
    rw [ih last, one, ← tables, one]

end Scheduler
end Vllm
