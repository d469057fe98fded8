import VllmProofs.Distributed.ShmBroadcast

/-!
The ring of chunks, whoever moves: which message is in which chunk, and which readers have released it.
-/

namespace Vllm.Distributed.Shm

/-- Numbers in a window that is as long as the ring have chunks of their own. -/
theorem eq_of_mod_eq {a b n : ℕ} (le : a ≤ b) (within : b < a + n) (same : a % n = b % n) : a = b := by
  have zero := Nat.sub_mod_eq_zero_of_mod_eq same.symm
  rw [Nat.mod_eq_of_lt (by omega)] at zero
  omega

theorem mod_ne {a b n : ℕ} (less : a < b) (within : b < a + n) : a % n ≠ b % n := by
  intro same
  have := eq_of_mod_eq less.le within same
  omega

section
variable {metadata : ℕ → ℕ → ℕ} {chunk byte value chunk' byte' : ℕ}

@[simp] theorem poke_self : poke metadata chunk byte value chunk byte = value := by
  unfold poke
  rw [Function.update_self, Function.update_self]

theorem poke_chunk (other : chunk' ≠ chunk) : poke metadata chunk byte value chunk' byte' = metadata chunk' byte' := by
  unfold poke
  rw [Function.update_of_ne other]

theorem poke_byte (other : byte' ≠ byte) : poke metadata chunk byte value chunk' byte' = metadata chunk' byte' := by
  unfold poke
  by_cases same : chunk' = chunk
  · rw [same, Function.update_self, Function.update_of_ne other]
  · rw [Function.update_of_ne same]

end

structure Ring (Obj : Type) where
  metadata : ℕ → ℕ → ℕ
  data : ℕ → List UInt8
  published : List Obj
  released : ℕ → ℕ
  /-- Whether the writer is at its chunk. -/
  writing : Bool

section
variable {Obj : Type} (pickle : Pickle Obj) (buffer : ShmRingBuffer)

/-- What is to be read from the chunk of a message. -/
def sent (obj : Obj) : Option Obj := if overflows pickle buffer obj then none else some obj

namespace Ring

structure Holds (g : Ring Obj) (k : ℕ) (obj : Obj) : Prop where
  written : g.metadata (k % buffer.maxChunks) 0 = 1
  content : readChunk pickle (g.data (k % buffer.maxChunks)) = sent pickle buffer obj
  flags : ∀ r < buffer.nReader, g.metadata (k % buffer.maxChunks) (r + 1) = if k < g.released r then 1 else 0

structure Sound (g : Ring Obj) : Prop where
  published : ∀ r < buffer.nReader, g.released r ≤ g.published.length
  ahead : ∀ r < buffer.nReader, g.published.length ≤ g.released r + buffer.maxChunks
  room : g.writing = true → ∀ r < buffer.nReader, g.published.length < g.released r + buffer.maxChunks
  sizes : ∀ c, (g.data c).length = buffer.maxChunkBytes
  nonempty : g.published ≠ [] → buffer.maxChunkBytes ≠ 0
  holds : ∀ k obj, g.published[k]? = some obj → g.published.length ≤ k + buffer.maxChunks →
    (g.writing = true → g.published.length < k + buffer.maxChunks) → Holds pickle buffer g k obj
  blank : ∀ c < buffer.maxChunks, g.published.length ≤ c → (g.writing = true → g.published.length < c) →
    ∀ byte ≤ buffer.nReader, g.metadata c byte = 0

/-- The chunk the writer comes to next. -/
def chunk (g : Ring Obj) : ℕ := g.published.length % buffer.maxChunks

/-- What the flags of that chunk are when every reader has released it. -/
def old (g : Ring Obj) : ℕ := if buffer.maxChunks ≤ g.published.length then 1 else 0

/-! ### The moves -/

def release (g : Ring Obj) (r : ℕ) : Ring Obj :=
  { g with
    metadata := poke g.metadata (g.released r % buffer.maxChunks) (r + 1) 1
    released := Function.update g.released r (g.released r + 1) }

def publish (g : Ring Obj) (obj : Obj) : Ring Obj :=
  { g with metadata := poke g.metadata (g.chunk buffer) 0 1, published := g.published ++ [obj], writing := false }

end Ring
end

namespace Ring

variable {Obj : Type} {pickle : Pickle Obj} {buffer : ShmRingBuffer} {g : Ring Obj} {r k : ℕ} {obj : Obj}

theorem Sound.create (metadata : ∀ c byte, g.metadata c byte = 0) (sizes : ∀ c, (g.data c).length = buffer.maxChunkBytes)
    (published : g.published = []) (released : ∀ r, g.released r = 0) (writing : g.writing = false) :
    g.Sound pickle buffer := by
  constructor
  · intro r _
    rw [released]
    exact Nat.zero_le _
  · intro r _
    rw [published]
    exact Nat.zero_le _
  · intro busy
    rw [writing] at busy
    cases busy
  · exact sizes
  · intro some_
    exact absurd published some_
  · intro k obj there
    rw [published] at there
    cases there
  · intro c _ _ _ byte _
    exact metadata c byte

section
variable (sound : g.Sound pickle buffer)
include sound

/-- While the writer is not at its chunk, the chunk is as the readers have left it. -/
theorem Sound.flags_chunk (free : g.writing = false) {r : ℕ} (inside : r < buffer.nReader) :
    g.metadata (g.chunk buffer) (r + 1) =
      if buffer.maxChunks ≤ g.published.length ∧ g.published.length < g.released r + buffer.maxChunks then 1 else 0 := by
  have positive := buffer.maxChunks_pos
  by_cases full : buffer.maxChunks ≤ g.published.length
  · have there : g.published.length - buffer.maxChunks < g.published.length := by omega
    have holds := sound.holds (g.published.length - buffer.maxChunks) _ (List.getElem?_eq_getElem there) (by omega)
      fun busy => by rw [free] at busy; cases busy
    have same : g.chunk buffer = (g.published.length - buffer.maxChunks) % buffer.maxChunks :=
      (Nat.mod_eq_sub_mod full)
    rw [same, holds.flags r inside]
    apply if_congr _ rfl rfl
    omega
  · have same : g.chunk buffer = g.published.length := Nat.mod_eq_of_lt (by omega)
    rw [if_neg (fun both => full both.1), same]
    exact sound.blank _ (by omega) (le_refl _) (fun busy => by rw [free] at busy; cases busy) _ (by omega)

theorem Sound.written_chunk (free : g.writing = false) :
    g.metadata (g.chunk buffer) 0 = g.old buffer := by
  have positive := buffer.maxChunks_pos
  unfold old
  by_cases full : buffer.maxChunks ≤ g.published.length
  · have there : g.published.length - buffer.maxChunks < g.published.length := by omega
    have holds := sound.holds (g.published.length - buffer.maxChunks) _ (List.getElem?_eq_getElem there) (by omega)
      fun busy => by rw [free] at busy; cases busy
    have same : g.chunk buffer = (g.published.length - buffer.maxChunks) % buffer.maxChunks :=
      (Nat.mod_eq_sub_mod full)
    rw [same, holds.written, if_pos full]
  · have same : g.chunk buffer = g.published.length := Nat.mod_eq_of_lt (by omega)
    rw [if_neg full, same]
    exact sound.blank _ (by omega) (le_refl _) (fun busy => by rw [free] at busy; cases busy) _ (Nat.zero_le _)

/-- The writer takes a chunk that is blank, or released by all. -/
theorem Sound.begin (free : g.writing = false)
    (taken : g.metadata (g.chunk buffer) 0 = 0 ∨ ∀ r < buffer.nReader, g.metadata (g.chunk buffer) (r + 1) = 1) :
    Sound pickle buffer { g with writing := true } ∧ ∀ byte ≤ buffer.nReader, g.metadata (g.chunk buffer) byte = g.old buffer := by
  have positive := buffer.maxChunks_pos
  have written := sound.written_chunk free
  have room : ∀ r < buffer.nReader, g.published.length < g.released r + buffer.maxChunks := by
    intro r inside
    rcases taken with blank | all
    · unfold old at written
      rw [blank] at written
      split at written
      · cases written
      · omega
    · have flag := all r inside
      rw [sound.flags_chunk free inside] at flag
      split at flag
      · rename_i both
        exact both.2
      · cases flag
  refine ⟨⟨sound.published, sound.ahead, fun _ => room, sound.sizes, sound.nonempty, ?_, ?_⟩, ?_⟩
  · intro k obj there _ later
    have holds := sound.holds k obj there (later rfl).le fun busy => by rw [free] at busy; cases busy
    exact ⟨holds.written, holds.content, holds.flags⟩
  · intro c inside _ later
    exact sound.blank c inside (later rfl).le fun busy => by rw [free] at busy; cases busy
  · intro byte inside
    cases byte with
    | zero => exact written
    | succ r =>
      rw [sound.flags_chunk free (by omega)]
      unfold old
      apply if_congr _ rfl rfl
      exact ⟨fun both => both.1, fun full => ⟨full, room r (by omega)⟩⟩

theorem Sound.atChunk {metadata : ℕ → ℕ → ℕ} {data : ℕ → List UInt8}
    (busy : g.writing = true) (others : ∀ c ≠ g.chunk buffer, metadata c = g.metadata c ∧ data c = g.data c)
    (sizes : ∀ c, (data c).length = buffer.maxChunkBytes) : Sound pickle buffer { g with metadata, data } := by
  refine ⟨sound.published, sound.ahead, sound.room, sizes, sound.nonempty, ?_, ?_⟩
  · intro k obj there before later
    have holds := sound.holds k obj there before later
    have less := (List.getElem?_eq_some_iff.mp there).1
    obtain ⟨same, sameData⟩ := others (k % buffer.maxChunks) (mod_ne less (later busy))
    constructor
    · show metadata _ 0 = 1
      rw [same]
      exact holds.written
    · show readChunk pickle (data _) = _
      rw [sameData]
      exact holds.content
    · intro r inside
      show metadata _ (r + 1) = _
      rw [same]
      exact holds.flags r inside
  · intro c inside before later byte small
    have other : c ≠ g.chunk buffer := by
      have less : g.published.length < c := later busy
      unfold chunk
      rw [Nat.mod_eq_of_lt (by omega)]
      omega
    show metadata c byte = 0
    rw [(others c other).1]
    exact sound.blank c inside before later byte small

theorem Sound.publish (busy : g.writing = true) (bytes : buffer.maxChunkBytes ≠ 0)
    (content : readChunk pickle (g.data (g.chunk buffer)) = sent pickle buffer obj)
    (flags : ∀ r < buffer.nReader, g.metadata (g.chunk buffer) (r + 1) = 0) :
    (g.publish buffer obj).Sound pickle buffer := by
  have length : (g.publish buffer obj).published.length = g.published.length + 1 := List.length_append
  constructor
  · intro r inside
    rw [length]
    exact (sound.published r inside).trans (Nat.le_succ _)
  · intro r inside
    rw [length]
    exact sound.room busy r inside
  · intro writing
    cases writing
  · exact sound.sizes
  · exact fun _ => bytes
  · intro k obj' there before _
    rw [length] at before
    by_cases last : k = g.published.length
    · have mine : obj' = obj := by
        have found : (g.published ++ [obj])[k]? = some obj' := there
        rw [last, List.getElem?_concat_length] at found
        exact (Option.some.inj found).symm
      rw [mine, last]
      refine ⟨poke_self, content, fun r inside => ?_⟩
      show poke g.metadata (g.chunk buffer) 0 1 (g.chunk buffer) (r + 1) = if g.published.length < g.released r then 1 else 0
      rw [poke_byte (Nat.succ_ne_zero r), flags r inside, if_neg (Nat.not_lt.mpr (sound.published r inside))]
    · have less := (List.getElem?_eq_some_iff.mp there).1
      rw [length] at less
      have earlier : g.published[k]? = some obj' := by
        have found : (g.published ++ [obj])[k]? = some obj' := there
        rw [List.getElem?_append_left (by omega)] at found
        exact found
      have holds := sound.holds k obj' earlier (by omega) fun _ => by omega
      have other : k % buffer.maxChunks ≠ g.chunk buffer := mod_ne (by omega) (by omega)
      refine ⟨(poke_chunk other).trans holds.written, holds.content, fun r inside => ?_⟩
      exact (poke_chunk other).trans (holds.flags r inside)
  · intro c inside before _ byte small
    rw [length] at before
    have other : c ≠ g.chunk buffer := by
      unfold chunk
      rw [Nat.mod_eq_of_lt (by omega)]
      omega
    exact (poke_chunk other).trans (sound.blank c inside (by omega) (fun _ => by omega) byte small)

theorem Sound.abandon (bytes : buffer.maxChunkBytes = 0)
    (blank : ∀ byte ≤ buffer.nReader, g.metadata (g.chunk buffer) byte = 0) :
    Sound pickle buffer { g with writing := false } := by
  have none : g.published = [] := by
    by_contra some_
    exact sound.nonempty some_ bytes
  refine ⟨sound.published, sound.ahead, fun busy => absurd busy Bool.false_ne_true,
    sound.sizes, sound.nonempty, ?_, ?_⟩
  · intro k obj there
    rw [none] at there
    cases there
  · intro c inside _ _ byte small
    show g.metadata c byte = 0
    by_cases first : c = 0
    · have here : g.chunk buffer = 0 := by
        unfold chunk
        rw [none]
        exact Nat.zero_mod _
      have zero := blank byte small
      rw [here] at zero
      rw [first]
      exact zero
    · have early : g.published.length < c := by
        rw [none]
        exact Nat.pos_of_ne_zero first
      exact sound.blank c inside early.le (fun _ => early) byte small

theorem Sound.release (less : g.released r < g.published.length) :
    (g.release buffer r).Sound pickle buffer := by
  have mine : (g.release buffer r).released r = g.released r + 1 := Function.update_self _ _ _
  have others : ∀ r' ≠ r, (g.release buffer r).released r' = g.released r' := fun r' other =>
    Function.update_of_ne other _ _
  have more : ∀ r', g.released r' ≤ (g.release buffer r).released r' := by
    intro r'
    by_cases same : r' = r
    · rw [same, mine]
      exact Nat.le_succ _
    · rw [others r' same]
  constructor
  · intro r' inside
    show (g.release buffer r).released r' ≤ g.published.length
    by_cases same : r' = r
    · rw [same, mine]
      exact less
    · rw [others r' same]
      exact sound.published r' inside
  · intro r' inside
    have ahead := sound.ahead r' inside
    have more := more r'
    show g.published.length ≤ _
    omega
  · intro busy r' inside
    have room := sound.room busy r' inside
    have more := more r'
    show g.published.length < _
    omega
  · exact sound.sizes
  · exact sound.nonempty
  · intro k obj there before later
    have holds := sound.holds k obj there before later
    have inside := (List.getElem?_eq_some_iff.mp there).1
    refine ⟨(poke_byte (Nat.succ_ne_zero r).symm).trans holds.written, holds.content, fun r' small => ?_⟩
    show poke g.metadata _ (r + 1) 1 _ (r' + 1) = _
    by_cases same : r' = r
    · rw [same] at small ⊢
      rw [mine]
      have ahead := sound.ahead r small
      by_cases here : k = g.released r
      · rw [here, poke_self, if_pos (Nat.lt_succ_self _)]
      · have apart : k % buffer.maxChunks ≠ g.released r % buffer.maxChunks := by
          rcases Nat.lt_or_gt_of_ne here with earlier | after
          · exact mod_ne earlier (by
              have before : g.published.length ≤ k + buffer.maxChunks := before
              omega)
          · exact (mod_ne after (by
              have inside : k < g.published.length := inside
              omega)).symm
        rw [poke_chunk apart, holds.flags r small]
        apply if_congr _ rfl rfl
        omega
    · rw [poke_byte (by omega), others r' same]
      exact holds.flags r' small
  · intro c inside before later byte small
    have before : g.published.length ≤ c := before
    have other : c ≠ g.released r % buffer.maxChunks := by
      rw [Nat.mod_eq_of_lt (by omega)]
      omega
    exact (poke_chunk other).trans (sound.blank c inside before later byte small)

theorem Sound.acquire (inside : r < buffer.nReader)
    (clear : g.metadata (g.released r % buffer.maxChunks) (r + 1) = 0)
    (written : g.metadata (g.released r % buffer.maxChunks) 0 ≠ 0)
    (busy : g.writing = true → g.metadata (g.chunk buffer) 0 = 0 ∨
      ∀ byte ≤ buffer.nReader, g.metadata (g.chunk buffer) byte = g.old buffer) : g.released r < g.published.length := by
  by_contra all
  have here : g.released r % buffer.maxChunks = g.chunk buffer := by
    unfold chunk
    rw [Nat.le_antisymm (sound.published r inside) (Nat.le_of_not_lt all)]
  rw [here] at clear written
  cases writing : g.writing with
  | true =>
    rcases busy writing with blank | same
    · exact written blank
    · rw [same _ (Nat.zero_le _)] at written
      rw [same _ inside] at clear
      exact written clear
  | false =>
    have positive := buffer.maxChunks_pos
    rw [sound.flags_chunk writing inside] at clear
    rw [sound.written_chunk writing] at written
    unfold old at written
    split at written
    · rename_i full
      rw [if_pos ⟨full, by omega⟩] at clear
      cases clear
    · exact written rfl

theorem Sound.read (inside : r < buffer.nReader) (there : g.published[g.released r]? = some obj) :
    readChunk pickle (g.data (g.released r % buffer.maxChunks)) = sent pickle buffer obj :=
  (sound.holds _ obj there (sound.ahead r inside) fun busy => sound.room busy r inside).content

theorem Sound.apart (inside : r < buffer.nReader) (busy : g.writing = true)
    (less : g.released r < g.published.length) : g.released r % buffer.maxChunks ≠ g.chunk buffer :=
  mod_ne less (sound.room busy r inside)

end

end Ring
end Vllm.Distributed.Shm
