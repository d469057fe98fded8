import VllmProofs.Distributed.ShmRing

/-!
The steps of the writer and of the readers against the ring: what each knows of its chunk, and what is in the
sockets.
-/

namespace Vllm.Distributed.Shm

variable {Obj : Type}

namespace Writer

/-- Whether the writer has taken its chunk and not published it. -/
def atChunk : Writer Obj → Bool
  | .clearWritten _ => true
  | .filling _ => true
  | .publishing _ _ => true
  | _ => false

end Writer

variable {self : Reader Obj}

namespace Reader

/-- How many chunks the reader has released. -/
def released (self : Reader Obj) : ℕ :=
  match self.at_ with
  | .receiving => self.dequeued.length + 1
  | _ => self.dequeued.length

theorem released_eq (other : self.at_ ≠ .receiving) : self.released = self.dequeued.length := by
  unfold released
  split
  · rename_i here
    exact absurd here other
  · rfl

/-- Whether the reader is between acquiring its chunk and releasing it. -/
def atChunk (self : Reader Obj) : Bool :=
  match self.at_ with
  | .reading => true
  | .setFlag _ => true
  | _ => false

end Reader

namespace MessageQueue

/-- The messages that are published: the last one may still have to be sent. -/
def published (m : MessageQueue Obj) : List Obj :=
  match m.writer with
  | .sending obj => m.enqueued ++ [obj]
  | _ => m.enqueued

def ring (m : MessageQueue Obj) : Ring Obj where
  metadata := m.metadata
  data := m.data
  published := m.published
  released := fun r => (m.readers r).released
  writing := m.writer.atChunk

end MessageQueue

section
variable (pickle : Pickle Obj) (buffer : ShmRingBuffer)

def WriterSound (g : Ring Obj) : Writer Obj → Prop
  | .polling _ _ i readCount => i ≤ buffer.nReader ∧ readCount ≤ i ∧
      (readCount = i → ∀ r < i, g.metadata (g.chunk buffer) (r + 1) = 1)
  | .clearWritten _ => ∀ byte ≤ buffer.nReader, g.metadata (g.chunk buffer) byte = g.old buffer
  | .filling _ => g.metadata (g.chunk buffer) 0 = 0 ∧
      ∀ r < buffer.nReader, g.metadata (g.chunk buffer) (r + 1) = g.old buffer
  | .publishing obj i => i ≤ buffer.nReader ∧ buffer.maxChunkBytes ≠ 0 ∧ g.metadata (g.chunk buffer) 0 = 0 ∧
      readChunk pickle (g.data (g.chunk buffer)) = sent pickle buffer obj ∧
        ∀ r < i, g.metadata (g.chunk buffer) (r + 1) = 0
  | .sending obj => overflows pickle buffer obj = true
  | _ => True

def ReaderSound (g : Ring Obj) (r : ℕ) (self : Reader Obj) : Prop :=
  match self.at_ with
  | .readWritten _ readFlag => readFlag = 0 → g.metadata (self.released % buffer.maxChunks) (r + 1) = 0
  | .reading => self.released < g.published.length
  | .setFlag obj => ∃ message, g.published[self.released]? = some message ∧ obj = sent pickle buffer message
  | .receiving => ∃ message, g.published[self.dequeued.length]? = some message ∧ overflows pickle buffer message = true
  | _ => True

def backlog (enqueued dequeued : List Obj) : List (List UInt8) :=
  ((enqueued.drop dequeued.length).filter (overflows pickle buffer)).map pickle.dumps

structure Aligned (m : MessageQueue Obj) : Prop where
  ring : m.ring.Sound pickle buffer
  writerIdx : m.currentIdx = m.ring.chunk buffer
  writer : WriterSound pickle buffer m.ring m.writer
  readerIdx : ∀ r < buffer.nReader, (m.readers r).currentIdx = (m.readers r).released % buffer.maxChunks
  reader : ∀ r < buffer.nReader, ReaderSound pickle buffer m.ring r (m.readers r)
  dequeued : ∀ r < buffer.nReader, (m.readers r).dequeued <+: m.enqueued
  localSocket : ∀ r < buffer.nReader,
    (m.readers r).localSocket = backlog pickle buffer m.enqueued (m.readers r).dequeued

end

variable {pickle : Pickle Obj} {buffer : ShmRingBuffer} {m m' : MessageQueue Obj} {g : Ring Obj} {r i : ℕ} {obj : Obj}

theorem aligned_create : Aligned pickle buffer (MessageQueue.create buffer) := by
  refine ⟨Ring.Sound.create (fun _ _ => rfl) (fun _ => List.length_replicate) rfl (fun _ => rfl) rfl,
    (Nat.zero_mod _).symm, trivial, fun _ _ => (Nat.zero_mod _).symm, fun _ _ => trivial, fun _ _ => List.prefix_refl _,
    fun _ _ => ?_⟩
  rfl

/-! ### What is written to a chunk and read from it -/

variable {buf : List UInt8}

theorem length_writeChunk {buf' : List UInt8} (written : writeChunk pickle buffer obj buf = some buf')
    (size : buf.length = buffer.maxChunkBytes) : buf'.length = buffer.maxChunkBytes ∧ buffer.maxChunkBytes ≠ 0 := by
  unfold writeChunk at written
  split at written
  · cases written
  · rename_i some_
    rw [size] at some_
    split at written
    · cases written
      exact ⟨List.length_set.trans size, some_⟩
    · rename_i fits
      cases written
      have less : (pickle.dumps obj).length < buffer.maxChunkBytes := by
        unfold overflows at fits
        exact Nat.lt_of_not_le fun large => fits (decide_eq_true large)
      rw [List.length_cons, List.length_append, List.length_drop, size]
      exact ⟨by omega, some_⟩

theorem readChunk_writeChunk {buf' : List UInt8} (written : writeChunk pickle buffer obj buf = some buf') :
    readChunk pickle buf' = sent pickle buffer obj := by
  unfold writeChunk at written
  unfold sent
  split at written
  · cases written
  · split at written
    · rename_i some_ large
      cases written
      rw [if_pos large]
      cases buf with
      | nil => exact absurd rfl some_
      | cons first rest => rfl
    · rename_i small
      cases written
      rw [if_neg small]
      unfold readChunk
      rw [List.head?_cons, if_neg (by decide), List.drop_one, List.tail_cons, pickle.loads_dumps]

/-! ### The writer's steps -/

variable {metadata : ℕ → ℕ → ℕ}

section
variable (aligned : Aligned pickle buffer m)
include aligned

theorem Aligned.reader_of_metadata {data : ℕ → List UInt8} {writing : Bool} (zero : ∀ c r, m.metadata c (r + 1) = 0 → metadata c (r + 1) = 0)
    (inside : r < buffer.nReader) :
    ReaderSound pickle buffer { m.ring with metadata, data, writing } r (m.readers r) := by
  have sound := aligned.reader r inside
  unfold ReaderSound at sound ⊢
  split <;> rename_i at_
  · rw [at_] at sound
    exact fun clear => zero _ _ (sound clear)
  · rw [at_] at sound
    exact sound
  · rw [at_] at sound
    exact sound
  · rw [at_] at sound
    exact sound
  · trivial

theorem Aligned.atChunk {data : ℕ → List UInt8} {writer : Writer Obj} (busy : m.writer.atChunk = true) (busy' : writer.atChunk = true)
    (zero : ∀ c r, m.metadata c (r + 1) = 0 → metadata c (r + 1) = 0)
    (others : ∀ c ≠ m.currentIdx, metadata c = m.metadata c ∧ data c = m.data c)
    (sizes : ∀ c, (data c).length = buffer.maxChunkBytes)
    (sound : WriterSound pickle buffer { m.ring with metadata, data } writer) :
    Aligned pickle buffer { m with metadata, data, writer } := by
  have published : ∀ {w : Writer Obj}, w.atChunk = true → MessageQueue.published { m with writer := w } = m.enqueued := by
    intro w busy
    cases w <;> first | rfl | cases busy
  have same : MessageQueue.ring { m with metadata, data, writer } = { m.ring with metadata, data } := by
    have before : m.published = m.enqueued := published busy
    unfold MessageQueue.ring
    rw [before, busy]
    exact congrArg₂ (fun p w => Ring.mk metadata data p _ w) (published busy') busy'
  have others' : ∀ c ≠ m.ring.chunk buffer, metadata c = m.ring.metadata c ∧ data c = m.ring.data c := by
    rw [← aligned.writerIdx]
    exact others
  constructor
  · rw [same]
    exact aligned.ring.atChunk busy others' sizes
  · rw [same]
    exact aligned.writerIdx
  · rw [same]
    exact sound
  · exact aligned.readerIdx
  · rw [same]
    exact fun r inside => aligned.reader_of_metadata zero inside
  · exact aligned.dequeued
  · exact aligned.localSocket

theorem Aligned.writerMoves {writer : Writer Obj}
    (same : MessageQueue.ring { m with writer } = m.ring) (sound : WriterSound pickle buffer m.ring writer) :
    Aligned pickle buffer { m with writer } := by
  constructor
  · rw [same]
    exact aligned.ring
  · rw [same]
    exact aligned.writerIdx
  · rw [same]
    exact sound
  · exact aligned.readerIdx
  · rw [same]
    exact aligned.reader
  · exact aligned.dequeued
  · exact aligned.localSocket

theorem Aligned.poll {timed : Bool} {readCount : ℕ}
    (here : m.writer = .polling obj timed i readCount) (inside : i < buffer.nReader) :
    Aligned pickle buffer { m with
      writer := .polling obj timed (i + 1) (readCount + m.metadata m.currentIdx (i + 1)) } := by
  have free : m.ring.writing = false := by
    show m.writer.atChunk = false
    rw [here]
    rfl
  have same : MessageQueue.ring { m with
      writer := .polling obj timed (i + 1) (readCount + m.metadata m.currentIdx (i + 1)) } = m.ring := by
    unfold MessageQueue.ring MessageQueue.published
    rw [here]
    rfl
  have sound := aligned.writer
  rw [here] at sound
  obtain ⟨-, few, all⟩ := sound
  have flag := aligned.ring.flags_chunk free inside
  apply aligned.writerMoves same
  rw [aligned.writerIdx]
  refine ⟨inside, ?_, fun counted r less => ?_⟩
  · show readCount + m.ring.metadata (m.ring.chunk buffer) (i + 1) ≤ i + 1
    rw [flag]
    split <;> omega
  · have counted : readCount + m.ring.metadata (m.ring.chunk buffer) (i + 1) = i + 1 := counted
    rcases Nat.lt_succ_iff_lt_or_eq.mp less with earlier | rfl
    · apply all _ r earlier
      rw [flag] at counted
      split at counted <;> omega
    · rw [flag] at counted ⊢
      split at counted
      · rename_i released
        exact if_pos released
      · omega

/-- The chunk is blank, or all readers have released it. -/
theorem Aligned.begin {timed : Bool} {readCount : ℕ}
    (here : m.writer = .polling obj timed i readCount) (all : ¬i < buffer.nReader)
    (taken : ¬(m.metadata m.currentIdx 0 ≠ 0 ∧ readCount ≠ buffer.nReader)) :
    Aligned pickle buffer { m with writer := .clearWritten obj } := by
  have free : m.ring.writing = false := by
    show m.writer.atChunk = false
    rw [here]
    rfl
  have same : MessageQueue.ring { m with writer := .clearWritten obj } = { m.ring with writing := true } := by
    unfold MessageQueue.ring MessageQueue.published
    rw [here]
    rfl
  have sound := aligned.writer
  rw [here] at sound
  obtain ⟨inside, few, counted⟩ := sound
  rw [aligned.writerIdx] at taken
  have taken : m.ring.metadata (m.ring.chunk buffer) 0 = 0 ∨
      ∀ r < buffer.nReader, m.ring.metadata (m.ring.chunk buffer) (r + 1) = 1 := by
    by_cases blank : m.ring.metadata (m.ring.chunk buffer) 0 = 0
    · exact .inl blank
    · have full : readCount = buffer.nReader := by
        by_contra some_
        exact taken ⟨blank, some_⟩
      refine .inr fun r less => counted (by omega) r (by omega)
  obtain ⟨begun, bytes⟩ := aligned.ring.begin free taken
  constructor
  · rw [same]
    exact begun
  · exact aligned.writerIdx.trans (by rw [same]; rfl)
  · rw [same]
    exact bytes
  · exact aligned.readerIdx
  · rw [same]
    exact fun r inside => aligned.reader_of_metadata (fun _ _ clear => clear) inside
  · exact aligned.dequeued
  · exact aligned.localSocket

end

theorem poke_zero {chunk byte c b : ℕ} (zero : metadata c b = 0) : poke metadata chunk byte 0 c b = 0 := by
  by_cases same : c = chunk ∧ b = byte
  · rw [same.1, same.2, poke_self]
  · by_cases sameChunk : c = chunk
    · rw [poke_byte fun sameByte => same ⟨sameChunk, sameByte⟩, zero]
    · rw [poke_chunk sameChunk, zero]

theorem poke_others {chunk byte value c : ℕ} (other : c ≠ chunk) :
    poke metadata chunk byte value c = metadata c := Function.update_of_ne other _ _

section
variable (aligned : Aligned pickle buffer m)
include aligned

theorem Aligned.clearWritten (here : m.writer = .clearWritten obj) :
    Aligned pickle buffer { m with metadata := poke m.metadata m.currentIdx 0 0, writer := .filling obj } := by
  have sound := aligned.writer
  rw [here] at sound
  apply aligned.atChunk (by rw [here]; rfl) rfl
  · exact fun c r zero => poke_zero zero
  · exact fun c other => ⟨poke_others other, rfl⟩
  · exact aligned.ring.sizes
  · rw [aligned.writerIdx]
    exact ⟨poke_self, fun r inside => (poke_byte (Nat.succ_ne_zero r)).trans (sound _ inside)⟩

theorem Aligned.fill (here : m.writer = .filling obj)
    (written : writeChunk pickle buffer obj (m.data m.currentIdx) = some buf) :
    Aligned pickle buffer { m with data := Function.update m.data m.currentIdx buf, writer := .publishing obj 0 } := by
  have sound := aligned.writer
  rw [here] at sound
  obtain ⟨size, bytes⟩ := length_writeChunk written (aligned.ring.sizes _)
  apply aligned.atChunk (by rw [here]; rfl) rfl
  · exact fun c r zero => zero
  · exact fun c other => ⟨rfl, Function.update_of_ne other _ _⟩
  · intro c
    by_cases mine : c = m.currentIdx
    · rw [mine, Function.update_self]
      exact size
    · rw [Function.update_of_ne mine]
      exact aligned.ring.sizes c
  · refine ⟨Nat.zero_le _, bytes, sound.1, ?_, fun r none => absurd none (Nat.not_lt_zero r)⟩
    show readChunk pickle (Function.update m.data m.currentIdx buf (m.ring.chunk buffer)) = _
    rw [← aligned.writerIdx, Function.update_self]
    exact readChunk_writeChunk written

/-- There is no byte to write to. -/
theorem Aligned.abandon (here : m.writer = .filling obj)
    (raised : writeChunk pickle buffer obj (m.data m.currentIdx) = none) :
    Aligned pickle buffer { m with writer := .idle } := by
  have sound := aligned.writer
  rw [here] at sound
  have bytes : buffer.maxChunkBytes = 0 := by
    unfold writeChunk at raised
    split at raised
    · rename_i empty
      rw [← aligned.ring.sizes m.currentIdx]
      exact empty
    · split at raised <;> cases raised
  have same : MessageQueue.ring { m with writer := .idle } = { m.ring with writing := false } := by
    unfold MessageQueue.ring MessageQueue.published
    rw [here]
    rfl
  have blank : ∀ byte ≤ buffer.nReader, m.ring.metadata (m.ring.chunk buffer) byte = 0 := by
    have none : m.ring.published = [] := by
      by_contra some_
      exact aligned.ring.nonempty some_ bytes
    intro byte inside
    cases byte with
    | zero => exact sound.1
    | succ r =>
      rw [sound.2 r inside]
      unfold Ring.old
      rw [none]
      exact if_neg (Nat.not_le.mpr buffer.maxChunks_pos)
  constructor
  · rw [same]
    exact aligned.ring.abandon bytes blank
  · exact aligned.writerIdx.trans (by rw [same]; rfl)
  · trivial
  · exact aligned.readerIdx
  · rw [same]
    exact fun r inside => aligned.reader_of_metadata (fun _ _ clear => clear) inside
  · exact aligned.dequeued
  · exact aligned.localSocket

theorem Aligned.clearFlag (here : m.writer = .publishing obj i) (inside : i < buffer.nReader) :
    Aligned pickle buffer { m with
      metadata := poke m.metadata m.currentIdx (i + 1) 0, writer := .publishing obj (i + 1) } := by
  have sound := aligned.writer
  rw [here] at sound
  obtain ⟨-, bytes, written, content, flags⟩ := sound
  apply aligned.atChunk (by rw [here]; rfl) rfl
  · exact fun c r zero => poke_zero zero
  · exact fun c other => ⟨poke_others other, rfl⟩
  · exact aligned.ring.sizes
  · rw [aligned.writerIdx]
    refine ⟨inside, bytes, poke_zero written, content, fun r less => ?_⟩
    rcases Nat.lt_succ_iff_lt_or_eq.mp less with earlier | rfl
    · exact poke_zero (flags r earlier)
    · exact poke_self

end

/-! ### A message is published -/

theorem next_chunk (g : Ring Obj) (obj : Obj) :
    MessageQueue.next buffer (g.chunk buffer) = (g.publish buffer obj).chunk buffer := by
  show (g.published.length % buffer.maxChunks + 1) % buffer.maxChunks = (g.published ++ [obj]).length % buffer.maxChunks
  rw [List.length_append, Nat.mod_add_mod]
  rfl

theorem ReaderSound.publish (obj : Obj) (sound : ReaderSound pickle buffer g r self) :
    ReaderSound pickle buffer (g.publish buffer obj) r self := by
  have longer : ∀ {k : ℕ} {message : Obj}, g.published[k]? = some message →
      (g.published ++ [obj])[k]? = some message := by
    intro k message there
    rw [List.getElem?_append_left (List.getElem?_eq_some_iff.mp there).1]
    exact there
  unfold ReaderSound at sound ⊢
  split <;> rename_i at_
  · rw [at_] at sound
    exact fun clear => (poke_byte (Nat.succ_ne_zero r)).trans (sound clear)
  · rw [at_] at sound
    show self.released < (g.published ++ [obj]).length
    rw [List.length_append]
    exact Nat.lt_succ_of_lt sound
  · rw [at_] at sound
    obtain ⟨message, there, same⟩ := sound
    exact ⟨message, longer there, same⟩
  · rw [at_] at sound
    obtain ⟨message, there, large⟩ := sound
    exact ⟨message, longer there, large⟩
  · trivial

theorem backlog_append {enqueued dequeued : List Obj} (before : dequeued <+: enqueued) (obj : Obj) :
    backlog pickle buffer (enqueued ++ [obj]) dequeued = backlog pickle buffer enqueued dequeued ++
      if overflows pickle buffer obj then [pickle.dumps obj] else [] := by
  unfold backlog
  rw [List.drop_append_of_le_length before.length_le, List.filter_append, List.map_append]
  apply congrArg
  cases large : overflows pickle buffer obj with
  | true =>
    rw [List.filter_cons_of_pos large]
    rfl
  | false =>
    rw [List.filter_cons_of_neg (by rw [large]; decide)]
    rfl

section
variable (aligned : Aligned pickle buffer m)
include aligned

theorem Aligned.published (here : m.writer = .publishing obj i)
    (all : ¬i < buffer.nReader) : (m.ring.publish buffer obj).Sound pickle buffer ∧
      m.ring.publish buffer obj = { m.ring with
        metadata := poke m.metadata m.currentIdx 0 1, published := m.enqueued ++ [obj], writing := false } := by
  have sound := aligned.writer
  rw [here] at sound
  obtain ⟨inside, bytes, -, content, flags⟩ := sound
  have busy : m.ring.writing = true := by
    show m.writer.atChunk = true
    rw [here]
    rfl
  refine ⟨aligned.ring.publish busy bytes content fun r less => flags r (by omega), ?_⟩
  have published : m.ring.published = m.enqueued := by
    show m.published = _
    unfold MessageQueue.published
    rw [here]
  unfold Ring.publish
  rw [← aligned.writerIdx, published]
  rfl

theorem Aligned.publish (here : m.writer = .publishing obj i)
    (all : ¬i < buffer.nReader) (large : overflows pickle buffer obj = true) :
    Aligned pickle buffer { m with
      metadata := poke m.metadata m.currentIdx 0 1, currentIdx := MessageQueue.next buffer m.currentIdx
      writer := .sending obj } := by
  obtain ⟨sound, same⟩ := aligned.published here all
  constructor
  · rw [same] at sound
    exact sound
  · show MessageQueue.next buffer m.currentIdx = _
    rw [aligned.writerIdx, next_chunk m.ring obj, same]
    rfl
  · exact large
  · exact aligned.readerIdx
  · intro r inside
    have kept := (aligned.reader r inside).publish obj
    rw [same] at kept
    exact kept
  · exact aligned.dequeued
  · exact aligned.localSocket

theorem Aligned.publishSmall (here : m.writer = .publishing obj i)
    (all : ¬i < buffer.nReader) (small : ¬overflows pickle buffer obj = true) :
    Aligned pickle buffer { m with
      metadata := poke m.metadata m.currentIdx 0 1, currentIdx := MessageQueue.next buffer m.currentIdx
      writer := .idle, enqueued := m.enqueued ++ [obj] } := by
  obtain ⟨sound, same⟩ := aligned.published here all
  constructor
  · rw [same] at sound
    exact sound
  · show MessageQueue.next buffer m.currentIdx = _
    rw [aligned.writerIdx, next_chunk m.ring obj, same]
    rfl
  · trivial
  · exact aligned.readerIdx
  · intro r inside
    have kept := (aligned.reader r inside).publish obj
    rw [same] at kept
    exact kept
  · intro r inside
    exact (aligned.dequeued r inside).trans (List.prefix_append _ _)
  · intro r inside
    show (m.readers r).localSocket = backlog pickle buffer (m.enqueued ++ [obj]) (m.readers r).dequeued
    rw [backlog_append (aligned.dequeued r inside), if_neg small, List.append_nil]
    exact aligned.localSocket r inside

theorem Aligned.send (here : m.writer = .sending obj) : Aligned pickle buffer { m with
      readers := fun r => { m.readers r with localSocket := (m.readers r).localSocket ++ [pickle.dumps obj] }
      writer := .idle, enqueued := m.enqueued ++ [obj] } := by
  have large : overflows pickle buffer obj = true := by
    have sound := aligned.writer
    rw [here] at sound
    exact sound
  have same : MessageQueue.ring { m with
      readers := fun r => { m.readers r with localSocket := (m.readers r).localSocket ++ [pickle.dumps obj] }
      writer := .idle, enqueued := m.enqueued ++ [obj] } = m.ring := by
    unfold MessageQueue.ring MessageQueue.published
    rw [here]
    rfl
  constructor
  · rw [same]
    exact aligned.ring
  · rw [same]
    exact aligned.writerIdx
  · trivial
  · exact aligned.readerIdx
  · rw [same]
    exact aligned.reader
  · intro r inside
    exact (aligned.dequeued r inside).trans (List.prefix_append _ _)
  · intro r inside
    show (m.readers r).localSocket ++ _ = backlog pickle buffer (m.enqueued ++ [obj]) (m.readers r).dequeued
    rw [backlog_append (aligned.dequeued r inside), if_pos large, aligned.localSocket r inside]

theorem Aligned.writerStep (stepped : m.writerStep pickle buffer = some m') :
    Aligned pickle buffer m' := by
  unfold MessageQueue.writerStep at stepped
  split at stepped <;> rename_i here
  · cases stepped
  · split at stepped
    · rename_i inside
      cases stepped
      exact aligned.poll here inside
    · rename_i all
      split at stepped
      · cases stepped
        apply aligned.writerMoves
        · unfold MessageQueue.ring MessageQueue.published
          rw [here]
          rfl
        · trivial
      · rename_i taken
        cases stepped
        exact aligned.begin here all taken
  · cases stepped
    apply aligned.writerMoves
    · unfold MessageQueue.ring MessageQueue.published
      rw [here]
      rfl
    · exact ⟨Nat.zero_le _, le_refl _, fun _ r none => absurd none (Nat.not_lt_zero r)⟩
  · cases stepped
    exact aligned.clearWritten here
  · split at stepped
    · rename_i raised
      cases stepped
      exact aligned.abandon here raised
    · rename_i written
      cases stepped
      exact aligned.fill here written
  · split at stepped
    · rename_i inside
      cases stepped
      exact aligned.clearFlag here inside
    · rename_i all
      split at stepped
      · rename_i large
        cases stepped
        exact aligned.publish here all large
      · rename_i small
        cases stepped
        exact aligned.publishSmall here all small
  · cases stepped
    exact aligned.send here

end

/-! ### The readers' steps -/

def MessageQueue.become (m : MessageQueue Obj) (r : ℕ) (self : Reader Obj) : MessageQueue Obj :=
  { m with readers := Function.update m.readers r self }

theorem released_become (r' : ℕ) : ((m.become r self).readers r').released =
    if r' = r then self.released else (m.readers r').released := by
  show (Function.update m.readers r self r').released = _
  split
  · rename_i same
    rw [same, Function.update_self]
  · rename_i other
    rw [Function.update_of_ne other]

/-- A step of a reader that releases nothing. -/
theorem Aligned.readerMoves (aligned : Aligned pickle buffer m)
    (released : self.released = (m.readers r).released) (currentIdx : self.currentIdx = (m.readers r).currentIdx)
    (sound : r < buffer.nReader → ReaderSound pickle buffer m.ring r self)
    (dequeued : r < buffer.nReader → self.dequeued <+: m.enqueued)
    (localSocket : r < buffer.nReader → self.localSocket = backlog pickle buffer m.enqueued self.dequeued) :
    Aligned pickle buffer (m.become r self) := by
  have same : (m.become r self).ring = m.ring := by
    unfold MessageQueue.ring
    congr 1
    funext r'
    rw [released_become]
    split
    · rename_i mine
      rw [mine, released]
    · rfl
  constructor
  · rw [same]
    exact aligned.ring
  · rw [same]
    exact aligned.writerIdx
  · rw [same]
    exact aligned.writer
  all_goals
    intro r' inside
    by_cases mine : r' = r
  · rw [released_become, if_pos mine, released, mine]
    show (Function.update m.readers r self r).currentIdx = _
    rw [Function.update_self, currentIdx]
    rw [mine] at inside
    exact aligned.readerIdx r inside
  · rw [released_become, if_neg mine]
    show (Function.update m.readers r self r').currentIdx = _
    rw [Function.update_of_ne mine]
    exact aligned.readerIdx r' inside
  · rw [same, mine]
    show ReaderSound pickle buffer m.ring r (Function.update m.readers r self r)
    rw [Function.update_self]
    exact sound (mine ▸ inside)
  · rw [same]
    show ReaderSound pickle buffer m.ring r' (Function.update m.readers r self r')
    rw [Function.update_of_ne mine]
    exact aligned.reader r' inside
  · show (Function.update m.readers r self r').dequeued <+: m.enqueued
    rw [mine, Function.update_self]
    exact dequeued (mine ▸ inside)
  · show (Function.update m.readers r self r').dequeued <+: m.enqueued
    rw [Function.update_of_ne mine]
    exact aligned.dequeued r' inside
  · show (Function.update m.readers r self r').localSocket =
      backlog pickle buffer m.enqueued (Function.update m.readers r self r').dequeued
    rw [mine, Function.update_self]
    exact localSocket (mine ▸ inside)
  · show (Function.update m.readers r self r').localSocket =
      backlog pickle buffer m.enqueued (Function.update m.readers r self r').dequeued
    rw [Function.update_of_ne mine]
    exact aligned.localSocket r' inside

theorem Aligned.readerAt {at_ : ReaderAt Obj} (aligned : Aligned pickle buffer m)
    (released : Reader.released { m.readers r with at_ } = (m.readers r).released)
    (sound : r < buffer.nReader → ReaderSound pickle buffer m.ring r { m.readers r with at_ }) :
    Aligned pickle buffer (m.become r { m.readers r with at_ }) :=
  aligned.readerMoves released rfl sound (aligned.dequeued r) (aligned.localSocket r)

theorem WriterSound.release {w : Writer Obj} (sound : WriterSound pickle buffer g w) (ring : g.Sound pickle buffer)
    (inside : r < buffer.nReader) (less : g.released r < g.published.length) (busy : w.atChunk = true → g.writing = true) :
    WriterSound pickle buffer (g.release buffer r) w := by
  have same : w.atChunk = true → ∀ byte, (g.release buffer r).metadata (g.chunk buffer) byte =
      g.metadata (g.chunk buffer) byte := fun at_ byte => poke_chunk (ring.apart inside (busy at_) less).symm
  cases w with
  | idle => trivial
  | polling obj timed i readCount =>
    obtain ⟨few, counted, all⟩ := sound
    refine ⟨few, counted, fun full r' less => ?_⟩
    show poke g.metadata _ (r + 1) 1 (g.chunk buffer) (r' + 1) = 1
    by_cases mine : g.chunk buffer = g.released r % buffer.maxChunks ∧ r' + 1 = r + 1
    · rw [mine.1, mine.2, poke_self]
    · by_cases here : g.chunk buffer = g.released r % buffer.maxChunks
      · rw [poke_byte fun byte => mine ⟨here, byte⟩]
        exact all full r' less
      · rw [poke_chunk here]
        exact all full r' less
  | waiting obj timed => trivial
  | clearWritten obj =>
    intro byte small
    exact (same rfl byte).trans (sound byte small)
  | filling obj =>
    obtain ⟨written, flags⟩ := sound
    exact ⟨(same rfl 0).trans written, fun r' small => (same rfl _).trans (flags r' small)⟩
  | publishing obj i =>
    obtain ⟨few, bytes, written, content, flags⟩ := sound
    exact ⟨few, bytes, (same rfl 0).trans written, content, fun r' small => (same rfl _).trans (flags r' small)⟩
  | sending obj => exact sound

theorem ReaderSound.release {r' : ℕ} (sound : ReaderSound pickle buffer g r' self) (other : r' ≠ r) :
    ReaderSound pickle buffer (g.release buffer r) r' self := by
  unfold ReaderSound at sound ⊢
  split <;> rename_i at_
  · rw [at_] at sound
    exact fun clear => (poke_byte (by omega)).trans (sound clear)
  · rw [at_] at sound
    exact sound
  · rw [at_] at sound
    exact sound
  · rw [at_] at sound
    exact sound
  · trivial

/-- A step of a reader that releases its chunk. -/
theorem Aligned.release (aligned : Aligned pickle buffer m) (inside : r < buffer.nReader)
    (less : (m.readers r).released < m.published.length) (released : self.released = (m.readers r).released + 1)
    (currentIdx : self.currentIdx = MessageQueue.next buffer (m.readers r).currentIdx)
    (sound : ReaderSound pickle buffer (m.ring.release buffer r) r self) (dequeued : self.dequeued <+: m.enqueued)
    (localSocket : self.localSocket = backlog pickle buffer m.enqueued self.dequeued) :
    Aligned pickle buffer { m.become r self with metadata := poke m.metadata (m.readers r).currentIdx (r + 1) 1 } := by
  have same : MessageQueue.ring { m.become r self with metadata := poke m.metadata (m.readers r).currentIdx (r + 1) 1 } =
      m.ring.release buffer r := by
    unfold MessageQueue.ring Ring.release
    rw [aligned.readerIdx r inside]
    congr 1
    funext r'
    show ((m.become r self).readers r').released = Function.update (fun r => (m.readers r).released) r _ r'
    rw [released_become]
    split
    · rename_i mine
      rw [mine, Function.update_self, released]
    · rename_i other
      rw [Function.update_of_ne other]
  constructor
  · rw [same]
    exact aligned.ring.release less
  · rw [same]
    exact aligned.writerIdx
  · rw [same]
    exact aligned.writer.release aligned.ring inside less fun busy => busy
  all_goals
    intro r' inside'
    by_cases mine : r' = r
  · show (Function.update m.readers r self r').currentIdx = ((m.become r self).readers r').released % _
    rw [released_become, if_pos mine, released, mine, Function.update_self, currentIdx, aligned.readerIdx r inside]
    exact Nat.mod_add_mod _ _ _
  · show (Function.update m.readers r self r').currentIdx = ((m.become r self).readers r').released % _
    rw [released_become, if_neg mine, Function.update_of_ne mine]
    exact aligned.readerIdx r' inside'
  · rw [same, mine]
    show ReaderSound pickle buffer (m.ring.release buffer r) r (Function.update m.readers r self r)
    rw [Function.update_self]
    exact sound
  · rw [same]
    show ReaderSound pickle buffer (m.ring.release buffer r) r' (Function.update m.readers r self r')
    rw [Function.update_of_ne mine]
    exact (aligned.reader r' inside').release mine
  · show (Function.update m.readers r self r').dequeued <+: m.enqueued
    rw [mine, Function.update_self]
    exact dequeued
  · show (Function.update m.readers r self r').dequeued <+: m.enqueued
    rw [Function.update_of_ne mine]
    exact aligned.dequeued r' inside'
  · show (Function.update m.readers r self r').localSocket =
      backlog pickle buffer m.enqueued (Function.update m.readers r self r').dequeued
    rw [mine, Function.update_self]
    exact localSocket
  · show (Function.update m.readers r self r').localSocket =
      backlog pickle buffer m.enqueued (Function.update m.readers r self r').dequeued
    rw [Function.update_of_ne mine]
    exact aligned.localSocket r' inside'

theorem Aligned.getElem?_enqueued {k : ℕ} (aligned : Aligned pickle buffer m) (there : m.published[k]? = some obj)
    (small : overflows pickle buffer obj = false) : m.enqueued[k]? = some obj := by
  unfold MessageQueue.published at there
  split at there
  · rename_i last here
    have large := aligned.writer
    rw [here] at large
    by_cases before : k < m.enqueued.length
    · rw [List.getElem?_append_left before] at there
      exact there
    · rw [List.getElem?_append_right (by omega), List.getElem?_singleton] at there
      split at there
      · cases there
        have large : overflows pickle buffer obj = true := large
        rw [small] at large
        cases large
      · cases there
  · exact there

/-- The next object that is enqueued is either dequeued from its chunk or waits in the socket. -/
theorem backlog_next {enqueued dequeued : List Obj} (before : dequeued <+: enqueued)
    (next : enqueued[dequeued.length]? = some obj) : dequeued ++ [obj] <+: enqueued ∧
      backlog pickle buffer enqueued dequeued = (if overflows pickle buffer obj then [pickle.dumps obj] else []) ++
        backlog pickle buffer enqueued (dequeued ++ [obj]) := by
  obtain ⟨rest, rfl⟩ := before
  rw [List.getElem?_append_right (le_refl _), Nat.sub_self] at next
  cases rest with
  | nil => cases next
  | cons first rest =>
    cases next
    refine ⟨?_, ?_⟩
    · exact ⟨rest, by rw [List.append_assoc, List.singleton_append]⟩
    · unfold backlog
      rw [List.drop_left, List.append_cons dequeued obj rest, List.drop_left]
      cases large : overflows pickle buffer obj with
      | true =>
        rw [List.filter_cons_of_pos large]
        rfl
      | false =>
        rw [List.filter_cons_of_neg (by rw [large]; decide)]
        rfl

section
variable (aligned : Aligned pickle buffer m)
include aligned

theorem Aligned.dequeueSmall (inside : r < buffer.nReader)
    (here : (m.readers r).at_ = .setFlag (some obj)) :
    Aligned pickle buffer { m.become r { m.readers r with
      at_ := .idle, currentIdx := MessageQueue.next buffer (m.readers r).currentIdx
      dequeued := (m.readers r).dequeued ++ [obj] } with
        metadata := poke m.metadata (m.readers r).currentIdx (r + 1) 1 } := by
  have sound := aligned.reader r inside
  have released : (m.readers r).released = (m.readers r).dequeued.length :=
    Reader.released_eq (by rw [here]; exact nofun)
  unfold ReaderSound at sound
  rw [here] at sound
  obtain ⟨message, there, read⟩ := sound
  unfold sent at read
  split at read
  · cases read
  · rename_i small
    cases read
    rw [Bool.not_eq_true] at small
    have next := aligned.getElem?_enqueued there small
    rw [released] at next
    obtain ⟨front, waits⟩ := backlog_next (aligned.dequeued r inside) next
    rw [small] at waits
    apply aligned.release inside (List.getElem?_eq_some_iff.mp there).1
    · show ((m.readers r).dequeued ++ [obj]).length = _
      rw [List.length_append, released]
      rfl
    · rfl
    · trivial
    · exact front
    · exact (aligned.localSocket r inside).trans waits

theorem Aligned.overflow (inside : r < buffer.nReader) (here : (m.readers r).at_ = .setFlag none) :
    Aligned pickle buffer { m.become r { m.readers r with
      at_ := .receiving, currentIdx := MessageQueue.next buffer (m.readers r).currentIdx } with
        metadata := poke m.metadata (m.readers r).currentIdx (r + 1) 1 } := by
  have sound := aligned.reader r inside
  have released : (m.readers r).released = (m.readers r).dequeued.length :=
    Reader.released_eq (by rw [here]; exact nofun)
  unfold ReaderSound at sound
  rw [here] at sound
  obtain ⟨message, there, read⟩ := sound
  apply aligned.release inside (List.getElem?_eq_some_iff.mp there).1
  · show (m.readers r).dequeued.length + 1 = _
    rw [released]
  · rfl
  · refine ⟨message, ?_, ?_⟩
    · show m.ring.published[(m.readers r).dequeued.length]? = some message
      rw [← released]
      exact there
    · unfold sent at read
      split at read
      · assumption
      · cases read
  · exact aligned.dequeued r inside
  · exact aligned.localSocket r inside

/-- The first message of the socket is the one the chunk was for. -/
theorem Aligned.receive {recv : List UInt8} {rest : List (List UInt8)}
    (here : (m.readers r).at_ = .receiving) (first : (m.readers r).localSocket = recv :: rest) :
    Aligned pickle buffer (m.become r { m.readers r with
      at_ := .idle, localSocket := rest, dequeued := (m.readers r).dequeued ++ [pickle.loads recv] }) := by
  have received : r < buffer.nReader → (m.readers r).dequeued ++ [pickle.loads recv] <+: m.enqueued ∧
      rest = backlog pickle buffer m.enqueued ((m.readers r).dequeued ++ [pickle.loads recv]) := by
    intro inside
    have sound := aligned.reader r inside
    unfold ReaderSound at sound
    rw [here] at sound
    obtain ⟨message, there, large⟩ := sound
    have waits := aligned.localSocket r inside
    rw [first] at waits
    have next : m.enqueued[(m.readers r).dequeued.length]? = some message := by
      have there : m.published[(m.readers r).dequeued.length]? = some message := there
      unfold MessageQueue.published at there
      split at there
      · have before : (m.readers r).dequeued.length < m.enqueued.length := by
          by_contra all
          unfold backlog at waits
          rw [List.drop_eq_nil_of_le (Nat.le_of_not_lt all)] at waits
          cases waits
        rw [List.getElem?_append_left before] at there
        exact there
      · exact there
    obtain ⟨front, waits'⟩ := backlog_next (aligned.dequeued r inside) next
    rw [large] at waits'
    have both := waits.trans waits'
    have head : recv = pickle.dumps message := (List.cons.inj both).1
    have same := pickle.loads_dumps message []
    rw [List.append_nil, ← head] at same
    rw [same]
    exact ⟨front, (List.cons.inj both).2⟩
  apply aligned.readerMoves
  · show ((m.readers r).dequeued ++ [pickle.loads recv]).length = (m.readers r).released
    unfold Reader.released
    rw [here, List.length_append]
    rfl
  · rfl
  · exact fun _ => trivial
  · exact fun inside => (received inside).1
  · exact fun inside => (received inside).2

theorem Aligned.readerStep (outside : buffer.nReader ≤ r → (m.readers r).at_ = .idle)
    (stepped : m.readerStep pickle buffer r = some m') : Aligned pickle buffer m' := by
  have inside : (m.readers r).at_ ≠ .idle → r < buffer.nReader := fun moves => by
    by_contra far
    exact moves (outside (Nat.le_of_not_lt far))
  have released : (∀ at_ : ReaderAt Obj, at_ ≠ .receiving → (m.readers r).at_ ≠ .receiving →
      Reader.released { m.readers r with at_ } = (m.readers r).released) := by
    intro at_ here there
    rw [Reader.released_eq there]
    exact Reader.released_eq here
  unfold MessageQueue.readerStep at stepped
  dsimp only at stepped
  split at stepped
  · cases stepped
  · rename_i timed here
    cases stepped
    have small := inside (by rw [here]; exact nofun)
    have kept := released (.readWritten timed (m.metadata (m.readers r).currentIdx (r + 1))) nofun (by rw [here]; exact nofun)
    apply aligned.readerAt kept
    intro _ clear
    rw [aligned.readerIdx r small] at clear
    rw [kept]
    exact clear
  · rename_i timed readFlag here
    split at stepped
    · cases stepped
      apply aligned.readerAt
      · exact released _ nofun (by rw [here]; exact nofun)
      · exact fun _ => trivial
    · rename_i ready
      cases stepped
      have small := inside (by rw [here]; exact nofun)
      have sound := aligned.reader r small
      unfold ReaderSound at sound
      rw [here] at sound
      rw [not_or, not_not, aligned.readerIdx r small] at ready
      have kept := released .reading nofun (by rw [here]; exact nofun)
      apply aligned.readerAt kept
      intro _
      show Reader.released { m.readers r with at_ := .reading } < m.ring.published.length
      rw [kept]
      apply aligned.ring.acquire small (sound ready.2) ready.1
      intro busy
      have writer := aligned.writer
      have busy : m.writer.atChunk = true := busy
      cases at_ : m.writer with
      | clearWritten obj =>
        rw [at_] at writer
        exact .inr writer
      | filling obj =>
        rw [at_] at writer
        exact .inl writer.1
      | publishing obj i =>
        rw [at_] at writer
        exact .inl writer.2.2.1
      | idle | polling | waiting | sending =>
        rw [at_] at busy
        cases busy
  · rename_i timed here
    cases stepped
    apply aligned.readerAt
    · exact released _ nofun (by rw [here]; exact nofun)
    · exact fun _ => trivial
  · rename_i here
    cases stepped
    have small := inside (by rw [here]; exact nofun)
    have sound := aligned.reader r small
    unfold ReaderSound at sound
    rw [here] at sound
    obtain ⟨message, there⟩ : ∃ message, m.ring.published[(m.readers r).released]? = some message :=
      ⟨_, List.getElem?_eq_getElem sound⟩
    have kept := released (.setFlag (readChunk pickle (m.data (m.readers r).currentIdx))) nofun
      (by rw [here]; exact nofun)
    apply aligned.readerAt kept
    intro _
    refine ⟨message, ?_, ?_⟩
    · rw [kept]
      exact there
    · rw [aligned.readerIdx r small]
      exact aligned.ring.read small there
  · rename_i here
    have small := inside (by rw [here]; exact nofun)
    split at stepped
    · cases stepped
      exact aligned.dequeueSmall small here
    · cases stepped
      exact aligned.overflow small here
  · rename_i here
    split at stepped
    · cases stepped
    · rename_i first
      cases stepped
      exact aligned.receive here first

end

end Vllm.Distributed.Shm
