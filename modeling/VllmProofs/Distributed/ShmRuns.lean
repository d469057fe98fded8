import VllmProofs.Distributed.ShmSteps

/-!
Runs of the message queue in shared memory, in any order of the accesses: what the readers dequeue is what was
enqueued, and no chunk is written while it is read.
-/

namespace Vllm.Distributed.Shm

variable {Obj : Type} {pickle : Pickle Obj} {buffer : ShmRingBuffer} {m m' : MessageQueue Obj} {r : ℕ}

/-! ### Timeouts -/

inductive Process where
  | writer
  | reader (r : ℕ)
  deriving DecidableEq

def Event.process : Event Obj → Process
  | .enqueue _ _ | .writer | .writerTimeout => .writer
  | .dequeue r _ | .reader r | .readerTimeout r => .reader r

def Event.begins : Event Obj → Bool
  | .enqueue _ _ | .dequeue _ _ => true
  | _ => false

def Process.timeout : Process → Event Obj
  | .writer => .writerTimeout
  | .reader r => .readerTimeout r

/-- No flag and no index has changed. -/
structure Untouched (m m' : MessageQueue Obj) : Prop where
  metadata : m'.metadata = m.metadata
  writerIdx : m'.currentIdx = m.currentIdx
  readerIdx : ∀ r, (m'.readers r).currentIdx = (m.readers r).currentIdx

def Writer.past : Writer Obj → Bool
  | .idle | .filling _ | .publishing _ _ | .sending _ => true
  | _ => false

def Reader.past (self : Reader Obj) : Bool :=
  match self.at_ with
  | .idle | .receiving => true
  | _ => false

/-- Whether the call of a process, if there is one, no longer waits. -/
def Past (m : MessageQueue Obj) : Process → Prop
  | .writer => m.writer.past = true
  | .reader r => (m.readers r).past = true

theorem Reader.past_iff {self : Reader Obj} : self.past = true ↔ self.at_ = .idle ∨ self.at_ = .receiving := by
  unfold past
  cases self.at_ <;> simp

theorem untouched_become {self : Reader Obj} (same : self.currentIdx = (m.readers r).currentIdx) :
    Untouched m (m.become r self) := by
  refine ⟨rfl, rfl, fun r' => ?_⟩
  show (Function.update m.readers r self r').currentIdx = _
  by_cases mine : r' = r
  · rw [mine, Function.update_self, same]
  · rw [Function.update_of_ne mine]

variable {e : Event Obj}

/-- A step that changes a flag or an index is one after which the call does not wait. -/
theorem untouched_or_past (stepped : m.step pickle buffer e = some m') :
    Untouched m m' ∨ Past m' e.process := by
  cases e with
  | enqueue obj timed =>
    unfold MessageQueue.step at stepped
    dsimp only at stepped
    split at stepped
    · split at stepped
      · cases stepped
        exact .inl ⟨rfl, rfl, fun _ => rfl⟩
      · cases stepped
        exact .inl ⟨rfl, rfl, fun _ => rfl⟩
    · cases stepped
  | writer =>
    have stepped : m.writerStep pickle buffer = some m' := stepped
    unfold MessageQueue.writerStep at stepped
    split at stepped
    · cases stepped
    · split at stepped
      · cases stepped
        exact .inl ⟨rfl, rfl, fun _ => rfl⟩
      · split at stepped
        · cases stepped
          exact .inl ⟨rfl, rfl, fun _ => rfl⟩
        · cases stepped
          exact .inl ⟨rfl, rfl, fun _ => rfl⟩
    · cases stepped
      exact .inl ⟨rfl, rfl, fun _ => rfl⟩
    · cases stepped
      exact .inr rfl
    · split at stepped
      · cases stepped
        exact .inl ⟨rfl, rfl, fun _ => rfl⟩
      · cases stepped
        exact .inl ⟨rfl, rfl, fun _ => rfl⟩
    · split at stepped
      · cases stepped
        exact .inr rfl
      · split at stepped
        · cases stepped
          exact .inr rfl
        · cases stepped
          exact .inr rfl
    · cases stepped
      exact .inl ⟨rfl, rfl, fun _ => rfl⟩
  | writerTimeout =>
    unfold MessageQueue.step at stepped
    dsimp only at stepped
    split at stepped
    · cases stepped
      exact .inl ⟨rfl, rfl, fun _ => rfl⟩
    · cases stepped
  | dequeue r timed =>
    unfold MessageQueue.step at stepped
    dsimp only at stepped
    split at stepped
    · split at stepped
      · cases stepped
        exact .inl (untouched_become rfl)
      · cases stepped
    · cases stepped
  | reader r =>
    have stepped : m.readerStep pickle buffer r = some m' := stepped
    have past : ∀ {self : Reader Obj} {metadata : ℕ → ℕ → ℕ}, self.at_ = .idle ∨ self.at_ = .receiving →
        Past { m.become r self with metadata } (.reader r) := by
      intro self metadata at_
      show (Function.update m.readers r self r).past = true
      rw [Function.update_self]
      exact Reader.past_iff.mpr at_
    unfold MessageQueue.readerStep at stepped
    dsimp only at stepped
    split at stepped
    · cases stepped
    · cases stepped
      exact .inl (untouched_become rfl)
    · split at stepped
      · cases stepped
        exact .inl (untouched_become rfl)
      · cases stepped
        exact .inl (untouched_become rfl)
    · cases stepped
      exact .inl (untouched_become rfl)
    · cases stepped
      exact .inl (untouched_become rfl)
    · split at stepped
      · cases stepped
        exact .inr (past (.inl rfl))
      · cases stepped
        exact .inr (past (.inr rfl))
    · split at stepped
      · cases stepped
      · cases stepped
        exact .inl (untouched_become rfl)
  | readerTimeout r =>
    unfold MessageQueue.step at stepped
    dsimp only at stepped
    split at stepped
    · cases stepped
      exact .inl (untouched_become rfl)
    · cases stepped

/-- The writer's steps leave the readers where they are. -/
theorem at_of_writer (stepped : m.step pickle buffer e = some m') (mine : e.process = .writer) (r : ℕ) :
    (m'.readers r).at_ = (m.readers r).at_ := by
  cases e with
  | enqueue obj timed =>
    unfold MessageQueue.step at stepped
    dsimp only at stepped
    split at stepped
    · split at stepped <;> cases stepped <;> rfl
    · cases stepped
  | writer =>
    have stepped : m.writerStep pickle buffer = some m' := stepped
    unfold MessageQueue.writerStep at stepped
    split at stepped
    · cases stepped
    · split at stepped
      · cases stepped
        rfl
      · split at stepped <;> cases stepped <;> rfl
    · cases stepped
      rfl
    · cases stepped
      rfl
    · split at stepped <;> cases stepped <;> rfl
    · split at stepped
      · cases stepped
        rfl
      · split at stepped <;> cases stepped <;> rfl
    · cases stepped
      rfl
  | writerTimeout =>
    unfold MessageQueue.step at stepped
    dsimp only at stepped
    split at stepped <;> cases stepped
    rfl
  | dequeue | reader | readerTimeout => cases mine

/-- A reader's steps leave the writer and the other readers as they are. -/
theorem others_of_reader (stepped : m.step pickle buffer e = some m') (mine : e.process = .reader r) :
    m'.writer = m.writer ∧ ∀ r' ≠ r, m'.readers r' = m.readers r' := by
  have become : ∀ {self : Reader Obj}, m' = m.become r self →
      m'.writer = m.writer ∧ ∀ r' ≠ r, m'.readers r' = m.readers r' := by
    rintro self rfl
    exact ⟨rfl, fun r' other => Function.update_of_ne other _ _⟩
  cases e with
  | enqueue | writer | writerTimeout => cases mine
  | dequeue r' timed =>
    cases mine
    unfold MessageQueue.step at stepped
    dsimp only at stepped
    split at stepped
    · split at stepped <;> cases stepped
      exact become rfl
    · cases stepped
  | reader r' =>
    cases mine
    have stepped : m.readerStep pickle buffer r = some m' := stepped
    unfold MessageQueue.readerStep at stepped
    dsimp only at stepped
    split at stepped
    · cases stepped
    · cases stepped
      exact become rfl
    · split at stepped <;> cases stepped <;> exact become rfl
    · cases stepped
      exact become rfl
    · cases stepped
      exact become rfl
    · split at stepped <;> cases stepped <;> exact ⟨rfl, fun r' other => Function.update_of_ne other _ _⟩
    · split at stepped <;> cases stepped
      exact become rfl
  | readerTimeout r' =>
    cases mine
    unfold MessageQueue.step at stepped
    dsimp only at stepped
    split at stepped <;> cases stepped
    exact become rfl

theorem past_writerStep (past : m.writer.past = true) (stepped : m.writerStep pickle buffer = some m') :
    m'.writer.past = true := by
  unfold MessageQueue.writerStep at stepped
  split at stepped <;> rename_i here
  · cases stepped
  · rw [here] at past
    cases past
  · rw [here] at past
    cases past
  · rw [here] at past
    cases past
  · split at stepped <;> cases stepped <;> rfl
  · split at stepped
    · cases stepped
      rfl
    · split at stepped <;> cases stepped <;> rfl
  · cases stepped
    rfl

theorem past_readerStep (past : (m.readers r).past = true) (stepped : m.readerStep pickle buffer r = some m') :
    (m'.readers r).past = true := by
  unfold MessageQueue.readerStep at stepped
  dsimp only at stepped
  rcases Reader.past_iff.mp past with here | here
  · rw [here] at stepped
    cases stepped
  · rw [here] at stepped
    dsimp only at stepped
    split at stepped
    · cases stepped
    · cases stepped
      show (Function.update m.readers r _ r).past = true
      rw [Function.update_self]
      rfl

variable {p : Process}

/-- A call that no longer waits ends before the next one begins. -/
theorem Past.step (past : Past m p) (stepped : m.step pickle buffer e = some m')
    (continues : e.process = p → e.begins = false) : Past m' p := by
  cases p with
  | writer =>
    cases process : e.process with
    | writer =>
      cases e with
      | enqueue => cases continues rfl
      | writer => exact past_writerStep past stepped
      | writerTimeout =>
        unfold MessageQueue.step at stepped
        dsimp only at stepped
        split at stepped <;> cases stepped
        rfl
      | dequeue | reader | readerTimeout => cases process
    | reader r =>
      show m'.writer.past = true
      rw [(others_of_reader stepped process).1]
      exact past
  | reader r =>
    show (m'.readers r).past = true
    cases process : e.process with
    | writer =>
      apply Reader.past_iff.mpr
      rw [at_of_writer stepped process r]
      exact Reader.past_iff.mp past
    | reader r' =>
      by_cases mine : r = r'
      · subst mine
        cases e with
        | enqueue | writer | writerTimeout => cases process
        | dequeue => cases continues process
        | reader =>
          cases process
          exact past_readerStep past stepped
        | readerTimeout =>
          cases process
          unfold MessageQueue.step at stepped
          dsimp only at stepped
          split at stepped <;> cases stepped
          dsimp only
          rw [Function.update_self]
          rfl
      · rw [(others_of_reader stepped process).2 r mine]
        exact past

theorem Past.no_timeout (past : Past m p) : m.step pickle buffer p.timeout = none := by
  cases p with
  | writer =>
    have past : m.writer.past = true := past
    unfold Process.timeout MessageQueue.step
    dsimp only
    split
    · rename_i here
      rw [here] at past
      cases past
    · rfl
  | reader r =>
    unfold Process.timeout MessageQueue.step
    dsimp only
    rcases Reader.past_iff.mp past with here | here <;> rw [here]

theorem untouched_timeout (raised : m.step pickle buffer p.timeout = some m') : Untouched m m' := by
  cases p with
  | writer =>
    unfold Process.timeout MessageQueue.step at raised
    dsimp only at raised
    split at raised <;> cases raised
    exact ⟨rfl, rfl, fun _ => rfl⟩
  | reader r =>
    unfold Process.timeout MessageQueue.step at raised
    dsimp only at raised
    split at raised <;> cases raised
    exact untouched_become rfl

theorem untouched_of_timeout {h : List (Event Obj)} {m₁ m₂ : MessageQueue Obj}
    (stepped : m₁.step pickle buffer e = some m₂) (mine : e.process = p)
    (run : Run (fun m e m' => m.step pickle buffer e = some m') m₂ h m)
    (continues : ∀ e ∈ h, e.process = p → e.begins = false)
    (raised : m.step pickle buffer p.timeout = some m') : Untouched m₁ m₂ := by
  rcases untouched_or_past stepped with kept | past
  · exact kept
  · rw [mine] at past
    have later : Past m p := by
      clear raised
      induction run with
      | start => exact past
      | call _ next ih =>
        exact (ih fun e member => continues e (List.mem_cons_of_mem _ member)).step next
          (continues _ List.mem_cons_self)
    rw [later.no_timeout] at raised
    cases raised

/-! ### Every run -/

abbrev Reaches (pickle : Pickle Obj) (buffer : ShmRingBuffer) (h : List (Event Obj)) (m : MessageQueue Obj) : Prop :=
  Run (fun m e m' => m.step pickle buffer e = some m') (.create buffer) h m

/-- There are no readers but the local ones. -/
def Outside (buffer : ShmRingBuffer) (m : MessageQueue Obj) : Prop :=
  ∀ r, buffer.nReader ≤ r → (m.readers r).at_ = .idle

theorem Outside.step (outside : Outside buffer m) (stepped : m.step pickle buffer e = some m') :
    Outside buffer m' := by
  intro r far
  cases process : e.process with
  | writer => rw [at_of_writer stepped process r, outside r far]
  | reader r' =>
    by_cases mine : r = r'
    · subst mine
      have idle := outside r far
      cases e with
      | enqueue | writer | writerTimeout => cases process
      | dequeue r' timed =>
        cases process
        unfold MessageQueue.step at stepped
        dsimp only at stepped
        rw [idle] at stepped
        dsimp only at stepped
        rw [if_neg (Nat.not_lt.mpr far)] at stepped
        cases stepped
      | reader =>
        cases process
        have stepped : m.readerStep pickle buffer r = some m' := stepped
        unfold MessageQueue.readerStep at stepped
        dsimp only at stepped
        rw [idle] at stepped
        cases stepped
      | readerTimeout =>
        cases process
        unfold MessageQueue.step at stepped
        dsimp only at stepped
        rw [idle] at stepped
        cases stepped
    · rw [(others_of_reader stepped process).2 r mine, outside r far]

theorem Aligned.step (aligned : Aligned pickle buffer m) (outside : Outside buffer m)
    (local_ : 0 < buffer.nReader) (stepped : m.step pickle buffer e = some m') : Aligned pickle buffer m' := by
  cases e with
  | enqueue obj timed =>
    unfold MessageQueue.step at stepped
    dsimp only at stepped
    split at stepped
    · rename_i here
      rw [if_pos local_] at stepped
      cases stepped
      apply aligned.writerMoves
      · unfold MessageQueue.ring MessageQueue.published
        rw [here]
        rfl
      · exact ⟨Nat.zero_le _, le_refl _, fun _ r none => absurd none (Nat.not_lt_zero r)⟩
    · cases stepped
  | writer => exact aligned.writerStep stepped
  | writerTimeout =>
    unfold MessageQueue.step at stepped
    dsimp only at stepped
    split at stepped
    · rename_i here
      cases stepped
      apply aligned.writerMoves
      · unfold MessageQueue.ring MessageQueue.published
        rw [here]
        rfl
      · trivial
    · cases stepped
  | dequeue r timed =>
    unfold MessageQueue.step at stepped
    dsimp only at stepped
    split at stepped
    · rename_i here
      split at stepped
      · cases stepped
        apply aligned.readerAt
        · rw [@Reader.released_eq _ (m.readers r) (by rw [here]; exact nofun)]
          exact Reader.released_eq nofun
        · exact fun _ => trivial
      · cases stepped
    · cases stepped
  | reader r => exact aligned.readerStep (outside r) stepped
  | readerTimeout r =>
    unfold MessageQueue.step at stepped
    dsimp only at stepped
    split at stepped
    · rename_i here
      cases stepped
      apply aligned.readerAt
      · rw [@Reader.released_eq _ (m.readers r) (by rw [here]; exact nofun)]
        exact Reader.released_eq nofun
      · exact fun _ => trivial
    · cases stepped

theorem aligned_run {h : List (Event Obj)} (local_ : 0 < buffer.nReader)
    (run : Reaches pickle buffer h m) :
    Aligned pickle buffer m ∧ Outside buffer m := by
  induction run with
  | start => exact ⟨aligned_create, fun _ _ => rfl⟩
  | call _ stepped ih => exact ⟨ih.1.step ih.2 local_ stepped, ih.2.step stepped⟩

theorem Aligned.apart (aligned : Aligned pickle buffer m) (inside : r < buffer.nReader)
    (reading : (m.readers r).atChunk = true) (writing : m.writer.atChunk = true) :
    (m.readers r).currentIdx ≠ m.currentIdx := by
  have less : (m.readers r).released < m.published.length := by
    have sound := aligned.reader r inside
    unfold ReaderSound at sound
    unfold Reader.atChunk at reading
    split at reading
    · rename_i here
      rw [here] at sound
      exact sound
    · rename_i here
      rw [here] at sound
      obtain ⟨message, there, -⟩ := sound
      exact (List.getElem?_eq_some_iff.mp there).1
    · cases reading
  rw [aligned.readerIdx r inside, aligned.writerIdx]
  exact aligned.ring.apart inside writing less

/-- The writer waits for the slowest reader, one round of the ring ahead at most. -/
theorem Aligned.ahead (aligned : Aligned pickle buffer m) (inside : r < buffer.nReader) :
    m.enqueued.length ≤ (m.readers r).dequeued.length + 1 + buffer.maxChunks := by
  have ahead : m.published.length ≤ (m.readers r).released + buffer.maxChunks := aligned.ring.ahead r inside
  have less : m.enqueued.length ≤ m.published.length := by
    unfold MessageQueue.published
    split
    · rw [List.length_append]
      exact Nat.le_add_right _ _
    · exact le_refl _
  have released : (m.readers r).released ≤ (m.readers r).dequeued.length + 1 := by
    unfold Reader.released
    split
    · exact le_refl _
    · exact Nat.le_succ _
  omega

/-- The socket never holds more messages than there are chunks, and the one that is being read. -/
theorem Aligned.length_localSocket (aligned : Aligned pickle buffer m) (inside : r < buffer.nReader) :
    (m.readers r).localSocket.length ≤ buffer.maxChunks + 1 := by
  have ahead := aligned.ahead inside
  rw [aligned.localSocket r inside]
  unfold backlog
  rw [List.length_map]
  apply (List.length_filter_le _ _).trans
  rw [List.length_drop]
  omega

/-- A reader is behind by the chunks and one message at most, and no more messages wait in its socket. -/
theorem lag_bounded {h : List (Event Obj)} (run : Reaches pickle buffer h m) (inside : r < buffer.nReader) :
    (m.readers r).dequeued <+: m.enqueued ∧
      m.enqueued.length ≤ (m.readers r).dequeued.length + buffer.maxChunks + 1 ∧
      (m.readers r).localSocket.length ≤ buffer.maxChunks + 1 := by
  have aligned := (aligned_run (Nat.zero_lt_of_lt inside) run).1
  have ahead := aligned.ahead inside
  exact ⟨aligned.dequeued r inside, by omega, aligned.length_localSocket inside⟩

/-- Whatever the order of the accesses, every reader dequeues what was enqueued, in order; no chunk is written while
a reader is at it; and a call that times out has changed no flag and no index. -/
theorem messages_delivered {h : List (Event Obj)} (run : Reaches pickle buffer h m) :
    (∀ r < buffer.nReader, (m.readers r).dequeued <+: m.enqueued) ∧
      (∀ r < buffer.nReader, (m.readers r).atChunk = true → m.writer.atChunk = true →
        (m.readers r).currentIdx ≠ m.currentIdx) ∧
      ∀ p m', m.step pickle buffer (Process.timeout p) = some m' → Untouched m m' ∧
        ∀ h₁ e h₂ m₁ m₂, Reaches pickle buffer h₂ m₁ →
          m₁.step pickle buffer e = some m₂ → Run (fun m e m' => m.step pickle buffer e = some m') m₂ h₁ m →
            e.process = p → (∀ e ∈ h₁, e.process = p → e.begins = false) → Untouched m₁ m₂ := by
  have aligned : ∀ {r}, r < buffer.nReader → Aligned pickle buffer m := fun inside =>
    (aligned_run (Nat.zero_lt_of_lt inside) run).1
  refine ⟨fun r inside => (aligned inside).dequeued r inside,
    fun r inside reading writing => (aligned inside).apart inside reading writing, fun p m' raised => ⟨?_, ?_⟩⟩
  · exact untouched_timeout raised
  · intro h₁ e h₂ m₁ m₂ _ stepped after mine continues
    exact untouched_of_timeout stepped mine after continues raised

def twoSizes : Pickle (Bool × UInt8) where
  dumps := fun (large, b) => if large then [1, b, b] else [0, b]
  loads := fun bytes =>
    match bytes with
    | n :: b :: _ => (n == 1, b)
    | _ => (false, 0)
  loads_dumps := by
    rintro ⟨large, b⟩ rest
    cases large <;> rfl

/-- One reader and one chunk, which holds the smaller objects. -/
def oneChunk : ShmRingBuffer where
  nReader := 1
  maxChunkBytes := 3
  maxChunks := 1
  maxChunks_pos := by decide

/-- A reader gives up once, and then gets an object through the socket. -/
theorem messages_delivered_overflow : ∃ m : MessageQueue (Bool × UInt8), Reaches twoSizes oneChunk
      [.reader 0, .reader 0, .reader 0, .reader 0, .reader 0, .dequeue 0 false, .writer, .writer, .writer, .writer, .writer,
        .writer, .writer, .enqueue (true, 7) true, .readerTimeout 0, .reader 0, .reader 0, .dequeue 0 true] m ∧
      ((m.readers 0).dequeued = [(true, 7)] ∧ (m.readers 0).localSocket = []) ∧ (m.readers 0).dequeued <+: m.enqueued := by
  have ran : ∃ m : MessageQueue (Bool × UInt8), Reaches twoSizes oneChunk
      [.reader 0, .reader 0, .reader 0, .reader 0, .reader 0, .dequeue 0 false, .writer, .writer, .writer, .writer, .writer,
        .writer, .writer, .enqueue (true, 7) true, .readerTimeout 0, .reader 0, .reader 0, .dequeue 0 true] m ∧
      ((m.readers 0).dequeued = [(true, 7)] ∧ (m.readers 0).localSocket = []) := by
    apply Run.exists_of_execute
    decide
  obtain ⟨m, run, received⟩ := ran
  exact ⟨m, run, received, (messages_delivered run).1 0 (by decide)⟩

/-- The same run before the reader gets the object: it waits in the socket. -/
theorem lag_bounded_overflow : ∃ m : MessageQueue (Bool × UInt8), Reaches twoSizes oneChunk
      [.writer, .writer, .writer, .writer, .writer, .writer, .writer, .enqueue (true, 7) true, .readerTimeout 0,
        .reader 0, .reader 0, .dequeue 0 true] m ∧
      (m.enqueued = [(true, 7)] ∧ (m.readers 0).dequeued = [] ∧ (m.readers 0).localSocket.length = 1) ∧
      ((m.readers 0).dequeued <+: m.enqueued ∧ m.enqueued.length ≤ (m.readers 0).dequeued.length + 1 + 1 ∧
        (m.readers 0).localSocket.length ≤ 1 + 1) := by
  have ran : ∃ m : MessageQueue (Bool × UInt8), Reaches twoSizes oneChunk
      [.writer, .writer, .writer, .writer, .writer, .writer, .writer, .enqueue (true, 7) true, .readerTimeout 0,
        .reader 0, .reader 0, .dequeue 0 true] m ∧
      (m.enqueued = [(true, 7)] ∧ (m.readers 0).dequeued = [] ∧ (m.readers 0).localSocket.length = 1) := by
    apply Run.exists_of_execute
    decide
  obtain ⟨m, run, waits⟩ := ran
  exact ⟨m, run, waits, lag_bounded run (by decide : 0 < oneChunk.nReader)⟩

end Vllm.Distributed.Shm
