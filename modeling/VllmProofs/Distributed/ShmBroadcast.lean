import VllmProofs.Data.Runs

/-!
The message queue in shared memory of `vllm/distributed/device_communicators/shm_broadcast.py`: one writer and
its local readers. Each access to a byte of the metadata is a step, and so is each access to a whole chunk.
Remote readers have a socket of their own and are left out.
-/

namespace Vllm.Distributed.Shm

structure Pickle (Obj : Type) where
  dumps : Obj → List UInt8
  loads : List UInt8 → Obj
  loads_dumps : ∀ obj rest, loads (dumps obj ++ rest) = obj

structure ShmRingBuffer where
  nReader : ℕ
  maxChunkBytes : ℕ
  maxChunks : ℕ
  maxChunks_pos : 0 < maxChunks

/-- Where the writer is. `timed` says whether there is a timeout. -/
inductive Writer (Obj : Type) where
  | idle
  -- the flags of the first `i` readers are read, `readCount` is their sum
  | polling (obj : Obj) (timed : Bool) (i readCount : ℕ)
  | waiting (obj : Obj) (timed : Bool)
  | clearWritten (obj : Obj)
  | filling (obj : Obj)
  -- the flags of the first `i` readers are cleared
  | publishing (obj : Obj) (i : ℕ)
  | sending (obj : Obj)
  deriving DecidableEq

/-- Where a reader is. A chunk is read as the object in it, or as an overflow. -/
inductive ReaderAt (Obj : Type) where
  | idle
  | readFlag (timed : Bool)
  | readWritten (timed : Bool) (readFlag : ℕ)
  | waiting (timed : Bool)
  | reading
  | setFlag (obj : Option Obj)
  | receiving
  deriving DecidableEq

structure Reader (Obj : Type) where
  at_ : ReaderAt Obj := .idle
  currentIdx : ℕ := 0
  localSocket : List (List UInt8) := []
  /-- What `dequeue` has returned. -/
  dequeued : List Obj := []

structure MessageQueue (Obj : Type) where
  metadata : ℕ → ℕ → ℕ := fun _ _ => 0
  data : ℕ → List UInt8
  writer : Writer Obj := .idle
  currentIdx : ℕ := 0
  readers : ℕ → Reader Obj := fun _ => {}
  /-- The objects of the calls of `enqueue` that have returned. -/
  enqueued : List Obj := []

inductive Event (Obj : Type) where
  | enqueue (obj : Obj) (timed : Bool)
  | writer
  | writerTimeout
  | dequeue (r : ℕ) (timed : Bool)
  | reader (r : ℕ)
  | readerTimeout (r : ℕ)

def poke (metadata : ℕ → ℕ → ℕ) (chunk byte value : ℕ) : ℕ → ℕ → ℕ :=
  Function.update metadata chunk (Function.update (metadata chunk) byte value)

section
variable {Obj : Type} (pickle : Pickle Obj) (buffer : ShmRingBuffer)

/-- `initialize the metadata section to 0` -/
def MessageQueue.create : MessageQueue Obj where
  data := fun _ => List.replicate buffer.maxChunkBytes 0

/-- Whether an object goes through the socket. -/
def overflows (obj : Obj) : Bool := decide (buffer.maxChunkBytes ≤ (pickle.dumps obj).length)

/-- What `enqueue` writes to a chunk; `buf[0]` raises if there is no byte. -/
def writeChunk (obj : Obj) (buf : List UInt8) : Option (List UInt8) :=
  if buf.length = 0 then none
  else if overflows pickle buffer obj then some (buf.set 0 1)
  else some (0 :: (pickle.dumps obj ++ buf.drop ((pickle.dumps obj).length + 1)))

/-- What `dequeue` reads from a chunk, unless the object is in the socket. -/
def readChunk (buf : List UInt8) : Option Obj :=
  if buf.head? = some 1 then none
  else some (pickle.loads (buf.drop 1))

namespace MessageQueue

def next (idx : ℕ) : ℕ := (idx + 1) % buffer.maxChunks

/-- `acquire_write` and what `enqueue` does around it, one access after the other. -/
def writerStep (m : MessageQueue Obj) : Option (MessageQueue Obj) :=
  match m.writer with
  | .idle => none
  | .polling obj timed i readCount =>
    if i < buffer.nReader then
      some { m with writer := .polling obj timed (i + 1) (readCount + m.metadata m.currentIdx (i + 1)) }
    else if m.metadata m.currentIdx 0 ≠ 0 ∧ readCount ≠ buffer.nReader then
      some { m with writer := .waiting obj timed }
    else some { m with writer := .clearWritten obj }
  | .waiting obj timed => some { m with writer := .polling obj timed 0 0 }
  | .clearWritten obj => some { m with metadata := poke m.metadata m.currentIdx 0 0, writer := .filling obj }
  | .filling obj =>
    match writeChunk pickle buffer obj (m.data m.currentIdx) with
    | none => some { m with writer := .idle }
    | some buf => some { m with data := Function.update m.data m.currentIdx buf, writer := .publishing obj 0 }
  | .publishing obj i =>
    if i < buffer.nReader then
      some { m with metadata := poke m.metadata m.currentIdx (i + 1) 0, writer := .publishing obj (i + 1) }
    else if overflows pickle buffer obj then
      some { m with
        metadata := poke m.metadata m.currentIdx 0 1, currentIdx := next buffer m.currentIdx, writer := .sending obj }
    else
      some { m with
        metadata := poke m.metadata m.currentIdx 0 1, currentIdx := next buffer m.currentIdx, writer := .idle
        enqueued := m.enqueued ++ [obj] }
  | .sending obj =>
    some { m with
      readers := fun r => { m.readers r with localSocket := (m.readers r).localSocket ++ [pickle.dumps obj] }
      writer := .idle, enqueued := m.enqueued ++ [obj] }

/-- `acquire_read` and what `dequeue` does around it, one access after the other. -/
def readerStep (m : MessageQueue Obj) (r : ℕ) : Option (MessageQueue Obj) :=
  let self := m.readers r
  let become (self : Reader Obj) : MessageQueue Obj := { m with readers := Function.update m.readers r self }
  match self.at_ with
  | .idle => none
  | .readFlag timed => some (become { self with at_ := .readWritten timed (m.metadata self.currentIdx (r + 1)) })
  | .readWritten timed readFlag =>
    if m.metadata self.currentIdx 0 = 0 ∨ readFlag ≠ 0 then some (become { self with at_ := .waiting timed })
    else some (become { self with at_ := .reading })
  | .waiting timed => some (become { self with at_ := .readFlag timed })
  | .reading => some (become { self with at_ := .setFlag (readChunk pickle (m.data self.currentIdx)) })
  | .setFlag obj =>
    let metadata := poke m.metadata self.currentIdx (r + 1) 1
    match obj with
    | some obj =>
      some { become { self with
        at_ := .idle, currentIdx := next buffer self.currentIdx, dequeued := self.dequeued ++ [obj] } with metadata }
    | none => some { become { self with at_ := .receiving, currentIdx := next buffer self.currentIdx } with metadata }
  | .receiving =>
    match self.localSocket with
    | [] => none
    | recv :: rest =>
      some (become { self with
        at_ := .idle, localSocket := rest, dequeued := self.dequeued ++ [pickle.loads recv] })

/-- Calls begin when the one before has ended, and time out only while they wait. Without local readers there is
no ring. -/
def step (m : MessageQueue Obj) : Event Obj → Option (MessageQueue Obj)
  | .enqueue obj timed =>
    match m.writer with
    | .idle =>
      if 0 < buffer.nReader then some { m with writer := .polling obj timed 0 0 }
      else some { m with enqueued := m.enqueued ++ [obj] }
    | _ => none
  | .writer => writerStep pickle buffer m
  | .writerTimeout =>
    match m.writer with
    | .waiting _ true => some { m with writer := .idle }
    | _ => none
  | .dequeue r timed =>
    match (m.readers r).at_ with
    | .idle =>
      if r < buffer.nReader then
        some { m with readers := Function.update m.readers r { m.readers r with at_ := .readFlag timed } }
      else none
    | _ => none
  | .reader r => readerStep pickle buffer m r
  | .readerTimeout r =>
    match (m.readers r).at_ with
    | .waiting true => some { m with readers := Function.update m.readers r { m.readers r with at_ := .idle } }
    | _ => none

end MessageQueue
end
end Vllm.Distributed.Shm
