import VllmProofs.Data.Runs
import VllmProofs.Evictor.Lru

/-!
What `LRUEvictor.evict` gives up over whole runs. Eviction follows the free table as long as
every resident block has its own entry in the queue, ahead of any leftover of the same block at
the same time. A call of `update` with a new time, or an `add` behind a leftover, breaks that.
-/

namespace Vllm.Evictor.LRUEvictor
open Exec

inductive Op where
  | add (blockId : BlockId) (contentHash : PrefixHash) (numHashedTokens : ℕ) (lastAccessed : Time)
      (cacheHint : Option CacheHint)
  | update (blockId : BlockId) (lastAccessed : Time) (cacheHint : Option CacheHint)
  | remove (blockId : BlockId)
  | evict

/-- The evictor after a call, whether the call returned or raised. -/
def exec (s : LRUEvictor) : Op → LRUEvictor
  | .add b h n t hint => after (add b h n t hint) s
  | .update b t hint => after (update b t hint) s
  | .remove b => after (remove b) s
  | .evict => after evict s

/-- The content hash the block was most recently added with, in a history latest first. -/
def lastAdded (blockId : BlockId) : List Op → Option PrefixHash
  | [] => none
  | .add b h _ _ _ :: rest => if b = blockId then some h else lastAdded blockId rest
  | _ :: rest => lastAdded blockId rest

/-- `evict` raises exactly on an empty table, and otherwise gives up a resident block of least
priority together with its latest content hash. -/
def EvictsLeast (history : List Op) (s : LRUEvictor) : Prop :=
  (s.freeTable.size = 0 → evict s = .error noUsableMemory s) ∧
  (s.freeTable.size ≠ 0 → ∃ blockId block rest,
    s.freeTable.get? blockId = some block ∧
    evict s = .ok (blockId, block.contentHash) rest ∧
    lastAdded blockId history = some block.contentHash ∧
    rest.freeTable = s.freeTable.erase blockId ∧
    ∀ c other, s.freeTable.get? c = some other → block.priority ≤ other.priority)

/-- The block's own entry is queued, and no leftover of the block at the same time precedes it. -/
def Queued (q : Heapq QueueEntry) (blockId : BlockId) (block : BlockMetaData) : Prop :=
  block.entry blockId ∈ q.entries ∧
  ∀ e ∈ q.entries, e.blockId = blockId → e.lastAccessed = block.lastAccessed →
    block.entry blockId ≤ e

def Indexed (s : LRUEvictor) : Prop :=
  ∀ b block, s.freeTable.get? b = some block → Queued s.priorityQueue b block

/-- The calls that keep the queue in step: an added block finds no leftover of itself at the same
time ahead of it, and a resident block is only moved to a time it is already queued under. -/
def Op.InStep (s : LRUEvictor) : Op → Prop
  | .add b h n t _ => ∀ e ∈ s.priorityQueue.entries, e.blockId = b → e.lastAccessed = t →
      (⟨t, -(n : ℤ), b, h⟩ : QueueEntry) ≤ e
  | .update b t (some hint) => movesOnAccess hint = true → ∀ block,
      s.freeTable.get? b = some block → Queued s.priorityQueue b { block with lastAccessed := t }
  | _ => True

/-! ### What each call does -/

variable {s : LRUEvictor}

theorem evict_empty (h : s.freeTable.size = 0) : evict s = .error noUsableMemory s := by
  simp [evict, bind_apply, h]

theorem evict_popped {e : QueueEntry} {rest : Heapq QueueEntry} (nonempty : s.freeTable.size ≠ 0)
    (popped : s.priorityQueue.popUntil (valid s.freeTable) = some (e, rest)) :
    evict s = .ok (e.blockId, e.contentHash)
      { s with freeTable := s.freeTable.erase e.blockId, priorityQueue := rest } := by
  simp [evict, bind_apply, nonempty, popped]

theorem evict_outdated (nonempty : s.freeTable.size ≠ 0)
    (outdated : s.priorityQueue.popUntil (valid s.freeTable) = none) :
    evict s = .error noUsableMemory { s with priorityQueue := ∅ } := by
  simp [evict, bind_apply, nonempty, outdated]

variable {b : BlockId} {t : Time}

theorem update_ok {hint : CacheHint}
    {block : BlockMetaData} (resident : s.freeTable.get? b = some block) :
    update b t (some hint) s = .ok () { s with
      freeTable := s.freeTable.insert b { (if movesOnAccess hint then
        { block with lastAccessed := t } else block) with cacheHint := some hint } } := by
  simp [update, bind_apply, resident]

theorem update_absent {hint : CacheHint}
    (absent : s.freeTable.get? b = none) : update b t (some hint) s = .error .keyError s := by
  simp [update, bind_apply, absent]

theorem remove_ok (resident : s.freeTable.contains b = true) :
    remove b s = .ok () { s with freeTable := s.freeTable.erase b } := by
  simp [remove, bind_apply, resident]

theorem remove_absent (absent : s.freeTable.contains b = false) : after (remove b) s = s := by
  simp [after, remove, bind_apply, absent]

@[simp] theorem cleanup_freeTable (s : LRUEvictor) : s.cleanup.freeTable = s.freeTable := rfl

@[simp] theorem cleanupIfNecessary_freeTable (s : LRUEvictor) :
    s.cleanupIfNecessary.freeTable = s.freeTable := by
  unfold cleanupIfNecessary
  split <;> rfl

theorem add_freeTable (s : LRUEvictor) (b : BlockId) (h : PrefixHash) (n : ℕ) (t : Time)
    (hint : Option CacheHint) : (after (add b h n t hint) s).freeTable =
      s.freeTable.insert b ⟨h, n, t, hint, .number 0⟩ := by
  simp [add, after]

/-! ### The queue stays in step -/

theorem cleanup_indexed (s : LRUEvictor) : Indexed s.cleanup := by
  intro b block resident
  refine ⟨?_, ?_⟩
  · simp only [cleanup, Heapq.mem_heapify, List.mem_map]
    exact ⟨(b, block), Dict.mem_items_iff.mpr resident, rfl⟩
  · intro e member same _
    simp only [cleanup, Heapq.mem_heapify, List.mem_map] at member
    obtain ⟨⟨c, other⟩, listed, rfl⟩ := member
    obtain rfl : c = b := same
    have found := Dict.mem_items_iff.mp listed
    obtain rfl : other = block := Option.some.inj (found.symm.trans resident)
    exact le_refl _

theorem cleanupIfNecessary_indexed (h : Indexed s) : Indexed s.cleanupIfNecessary := by
  unfold cleanupIfNecessary
  split
  · exact cleanup_indexed s
  · exact h

section
variable (indexed : Indexed s)
include indexed

theorem add_indexed {h : PrefixHash} {n : ℕ}
    {hint : Option CacheHint} (ahead : (Op.add b h n t hint).InStep s) :
    Indexed (after (add b h n t hint) s) := by
  refine cleanupIfNecessary_indexed ?_
  intro c block resident
  simp only [Dict.get?_insert] at resident
  by_cases same : c = b
  · subst same
    rw [if_pos rfl] at resident
    cases resident
    refine ⟨by simp, ?_⟩
    intro e member sameId sameTime
    rcases Heapq.mem_push.mp member with fresh | old
    · exact fresh ▸ le_refl _
    · exact ahead e old sameId sameTime
  · rw [if_neg same] at resident
    obtain ⟨queued, first⟩ := indexed c block resident
    refine ⟨Heapq.mem_push.mpr (Or.inr queued), ?_⟩
    intro e member sameId sameTime
    rcases Heapq.mem_push.mp member with fresh | old
    · subst fresh
      exact (same sameId.symm).elim
    · exact first e old sameId sameTime

theorem update_indexed {hint : Option CacheHint} (queued : (Op.update b t hint).InStep s) :
    Indexed (after (update b t hint) s) := by
  cases hint with
  | none => exact indexed
  | some hint =>
    cases resident : s.freeTable.get? b with
    | none => rwa [after_error (update_absent resident)]
    | some block =>
      rw [after_ok (update_ok resident)]
      intro c other found
      simp only [Dict.get?_insert] at found
      by_cases same : c = b
      · subst same
        rw [if_pos rfl] at found
        cases found
        cases moves : movesOnAccess hint with
        | true => simpa [Queued, BlockMetaData.entry] using queued moves block resident
        | false => simpa [Queued, BlockMetaData.entry] using indexed c block resident
      · rw [if_neg same] at found
        exact indexed c other found

theorem remove_indexed : Indexed (after (remove b) s) := by
  cases resident : s.freeTable.contains b with
  | false => rwa [remove_absent resident]
  | true =>
    rw [after_ok (remove_ok resident)]
    intro c block found
    simp only [Dict.get?_erase] at found
    split at found
    · cases found
    · exact indexed c block found

/-- In step, the first valid entry is the own entry of a resident block of least priority. -/
theorem popUntil_indexed (nonempty : s.freeTable.size ≠ 0) :
    ∃ blockId block rest, s.freeTable.get? blockId = some block ∧
      s.priorityQueue.popUntil (valid s.freeTable) = some (block.entry blockId, rest) := by
  have resident : ∃ b block, s.freeTable.get? b = some block := by
    by_contra none
    push Not at none
    exact nonempty (Dict.size_eq_zero_iff.mpr fun k =>
      Option.eq_none_iff_forall_ne_some.mpr (none k))
  obtain ⟨b, block, found⟩ := resident
  cases popped : s.priorityQueue.popUntil (valid s.freeTable) with
  | none =>
    have invalid := Heapq.popUntil_none popped _ (indexed b block found).1
    simp [valid, BlockMetaData.entry, found] at invalid
  | some pair =>
    obtain ⟨e, rest⟩ := pair
    obtain ⟨member, isValid, least, -⟩ := Heapq.popUntil_some popped
    cases owner : s.freeTable.get? e.blockId with
    | none => simp [valid, owner] at isValid
    | some held =>
      obtain ⟨queued, first⟩ := indexed e.blockId held owner
      simp only [valid, owner, decide_eq_true_eq] at isValid
      have own : held.entry e.blockId = e := le_antisymm
        (first e member rfl isValid.symm)
        (least _ queued (by simp [valid, BlockMetaData.entry, owner]))
      exact ⟨e.blockId, held, rest, owner, by rw [own]⟩

theorem evict_indexed : Indexed (after evict s) := by
  by_cases empty : s.freeTable.size = 0
  · rwa [after_error (evict_empty empty)]
  · obtain ⟨b, block, rest, resident, popped⟩ := popUntil_indexed indexed empty
    rw [after_ok (evict_popped empty popped)]
    obtain ⟨-, -, least, kept⟩ := Heapq.popUntil_some popped
    intro c other found
    simp only [BlockMetaData.entry, Dict.get?_erase] at found
    split at found
    · cases found
    · rename_i different
      obtain ⟨queued, first⟩ := indexed c other found
      refine ⟨?_, fun e member => first e (kept e member)⟩
      -- the entries popped before the victim's are outdated, the entry of `c` is not
      have survives := Heapq.popUntil_keeps popped queued
        (by simp [valid, BlockMetaData.entry, found])
      rcases survives with same | later
      · exact (different (congrArg QueueEntry.blockId same)).elim
      · exact later

theorem exec_indexed {op : Op} (inStep : op.InStep s) : Indexed (exec s op) := by
  cases op with
  | add b h n t hint => exact add_indexed indexed inStep
  | update b t hint => exact update_indexed indexed inStep
  | remove b => exact remove_indexed indexed
  | evict => exact evict_indexed indexed

end

/-! ### The table remembers the latest content hash -/

def Remembers (history : List Op) (s : LRUEvictor) : Prop :=
  ∀ b block, s.freeTable.get? b = some block → lastAdded b history = some block.contentHash

theorem exec_remembers {op : Op} {history : List Op} (h : Remembers history s) :
    Remembers (op :: history) (exec s op) := by
  intro b block resident
  cases op with
  | add c hash n t hint =>
    simp only [exec, add_freeTable, Dict.get?_insert] at resident
    by_cases same : b = c
    · subst same
      rw [if_pos rfl] at resident
      cases resident
      simp [lastAdded]
    · rw [if_neg same] at resident
      simpa [lastAdded, Ne.symm same] using h b block resident
  | update c t hint =>
    simp only [exec] at resident
    cases hint with
    | none => exact h b block resident
    | some hint =>
      cases found : s.freeTable.get? c with
      | none =>
        rw [after_error (update_absent found)] at resident
        exact h b block resident
      | some held =>
        rw [after_ok (update_ok found), Dict.get?_insert] at resident
        by_cases same : b = c
        · subst same
          rw [if_pos rfl] at resident
          cases resident
          have known := h b held found
          cases moves : movesOnAccess hint <;> simpa [lastAdded] using known
        · rw [if_neg same] at resident
          exact h b block resident
  | remove c =>
    simp only [exec] at resident
    cases present : s.freeTable.contains c with
    | false =>
      rw [remove_absent present] at resident
      exact h b block resident
    | true =>
      rw [after_ok (remove_ok present), Dict.get?_erase] at resident
      split at resident
      · cases resident
      · exact h b block resident
  | evict =>
    simp only [exec] at resident
    by_cases empty : s.freeTable.size = 0
    · rw [after_error (evict_empty empty)] at resident
      exact h b block resident
    · cases popped : s.priorityQueue.popUntil (valid s.freeTable) with
      | none =>
        rw [after_error (evict_outdated empty popped)] at resident
        exact h b block resident
      | some pair =>
        obtain ⟨e, rest⟩ := pair
        rw [after_ok (evict_popped empty popped), Dict.get?_erase] at resident
        split at resident
        · cases resident
        · exact h b block resident

theorem evictsLeast_of_indexed {history : List Op} (indexed : Indexed s)
    (remembers : Remembers history s) : EvictsLeast history s := by
  refine ⟨evict_empty, fun nonempty => ?_⟩
  obtain ⟨b, block, rest, resident, popped⟩ := popUntil_indexed indexed nonempty
  obtain ⟨-, -, least, -⟩ := Heapq.popUntil_some popped
  refine ⟨b, block, _, resident, evict_popped nonempty popped, remembers b block resident, rfl, ?_⟩
  intro c other found
  refine priority_le_of_entry_le (b := b) (c := c) (least _ (indexed c other found).1 ?_)
  simp [valid, BlockMetaData.entry, found]

/-- In a run whose calls keep the queue in step, `evict` follows the free table throughout. -/
theorem run_evictsLeast {history : List Op} {s : LRUEvictor}
    (run : Run (fun s op t => op.InStep s ∧ t = exec s op) {} history s) :
    EvictsLeast history s := by
  have both : Indexed s ∧ Remembers history s := by
    refine run.invariant (I := fun h s => Indexed s ∧ Remembers h s) ⟨?_, ?_⟩ ?_
    · intro b block resident
      cases resident
    · intro b block resident
      cases resident
    · rintro h t op u ⟨indexed, remembers⟩ ⟨inStep, rfl⟩
      exact ⟨exec_indexed indexed inStep, exec_remembers remembers⟩
  exact evictsLeast_of_indexed both.1 both.2

instance (q : Heapq QueueEntry) (b : BlockId) (block : BlockMetaData) : Decidable (Queued q b block) :=
  inferInstanceAs (Decidable (_ ∧ _))

instance (s : LRUEvictor) : DecidablePred (Op.InStep s)
  | .add _ _ _ _ _ => inferInstanceAs (Decidable (∀ e ∈ _, _ → _ → _))
  | .update b t (some hint) => inferInstanceAs (Decidable (movesOnAccess hint = true →
      ∀ block ∈ s.freeTable.get? b, Queued s.priorityQueue b { block with lastAccessed := t }))
  | .update _ _ none => .isTrue trivial
  | .remove _ => .isTrue trivial
  | .evict => .isTrue trivial

/-- A block under FIFO is used again, another at the time it was added; one is removed and the oldest evicted. -/
def eachCall : List Op :=
  [.evict, .remove 3, .update 1 6 (some {}), .update 0 9 (some { useFifo := some 1 }), .add 3 10 16 7 none,
    .add 2 9 16 4 none, .add 1 8 32 6 none, .add 0 7 16 5 none]

theorem run_evictsLeast_eachCall :
    ∃ s : LRUEvictor, s.freeTable.keys = [0, 1] ∧ EvictsLeast eachCall s := by
  obtain ⟨s, run, left⟩ := Run.exists_of_execute (s := ({} : LRUEvictor)) (h := eachCall)
    (f := fun s op => if op.InStep s then some (exec s op) else none)
    (P := fun s => s.freeTable.keys = [0, 1]) (by decide +kernel)
  refine ⟨s, left, run_evictsLeast (run.mono fun t op u stepped => ?_)⟩
  split at stepped
  · rename_i inStep
    exact ⟨inStep, (Option.some.inj stepped).symm⟩
  · cases stepped

/-- The calls that are ordinary use: an update names a resident block and a newer time. -/
def Op.Newer (s : LRUEvictor) : Op → Prop
  | .update b t hint => hint.isSome ∧ ∃ block, s.freeTable.get? b = some block ∧
      block.lastAccessed < t
  | _ => True

/-- One block added at time 1 and touched at time 2 has no valid entry left. -/
theorem newer_update_loses_block : ¬ ∀ (history : List Op) (s : LRUEvictor),
    Run (fun s op t => op.Newer s ∧ t = exec s op) {} history s → EvictsLeast history s := by
  intro claim
  have run : Run (fun s op t => op.Newer s ∧ t = exec s op) {}
      [.update 0 2 (some {}), .add 0 7 16 1 none]
      (exec (exec {} (.add 0 7 16 1 none)) (.update 0 2 (some {}))) :=
    .call (.call .start ⟨trivial, rfl⟩)
      ⟨⟨rfl, ⟨7, 16, 1, none, .number 0⟩, by simp [exec, add_freeTable], by decide⟩, rfl⟩
  have outcome := (claim _ _ run).2 (by decide)
  obtain ⟨b, block, rest, -, evicted, -⟩ := outcome
  have raised : ∃ t, evict (exec (exec {} (.add 0 7 16 1 none)) (.update 0 2 (some {}))) =
      .error noUsableMemory t := ⟨_, evict_outdated (by decide) (by rfl)⟩
  obtain ⟨t, raised⟩ := raised
  rw [raised] at evicted
  cases evicted

end Vllm.Evictor.LRUEvictor
