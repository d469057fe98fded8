import VllmProofs.Data.Runs

/-!
The lookup buffer of the KV cache transfer: `SimpleBuffer`, with the producer's `insert`, the consumer's `drop_select`
and the handler that serves it. A turn of the handler under `buffer_cv` is one step, and so is an insert that finds
room; one that does not waits.
-/

namespace Vllm.Distributed.KVLookup

structure Tensor (α : Type) where
  elementSize : ℕ
  data : List α
  deriving DecidableEq, Repr

def Tensor.size {α : Type} (t : Tensor α) : ℕ := t.elementSize * t.data.length

def masked (tokens : List ℤ) (roi : List Bool) : List ℤ :=
  ((tokens.zip roi).filter (·.2)).map (·.1)

structure BufferItem (V : Type) where
  inputTokens : Tensor ℤ
  roi : Tensor Bool
  key : Tensor V
  value : Tensor V
  hidden : Tensor V
  mask : roi.data.length = inputTokens.data.length
  deriving DecidableEq, Repr

/-- The tokens that the KV cache is associated with. -/
def BufferItem.prompt {V : Type} (item : BufferItem V) : List ℤ := masked item.inputTokens.data item.roi.data

/-- What `_add_to_buffer` adds up, and what the sends of an item take off. -/
def BufferItem.size {V : Type} (item : BufferItem V) : ℕ :=
  item.inputTokens.size + item.roi.size + item.key.size + item.value.size + item.hidden.size

/-- A `drop_select`; without tokens it asks for any item. -/
structure Request where
  inputTokens : Option (List ℤ)
  roi : List Bool
  mask : ∀ tokens ∈ inputTokens, roi.length = tokens.length

def Request.prompt (request : Request) : Option (List ℤ) := request.inputTokens.map (masked · request.roi)

section
variable {V : Type} (allclose : List ℤ → List ℤ → Bool)

def matchLength (item : BufferItem V) (request : Request) : ℕ :=
  match request.prompt with
  | none => 1
  | some tokensRecver =>
    let tokensSender := item.prompt
    let minLength := min tokensSender.length tokensRecver.length
    if allclose (tokensSender.take minLength) (tokensRecver.take minLength) then minLength else 0

/-- `is_buffer_available`, with `n` rounds of its loop to go: an item that does not match goes to the end. -/
def isBufferAvailable (request : Request) : ℕ → List (BufferItem V) → Bool × List (BufferItem V)
  | 0, buffer => (false, buffer)
  | _ + 1, [] => (false, [])
  | n + 1, item :: rest =>
    if 0 < matchLength allclose item request then (true, item :: rest) else isBufferAvailable request n (rest ++ [item])

end

/-- `pending` is the request that the handler has received and not answered yet. -/
structure SimpleBuffer (V : Type) where
  bufferSizeThreshold : ℚ≥0
  buffer : List (BufferItem V) := []
  bufferSize : ℤ := 0
  pending : Option Request := none
  /-- The answers given so far. -/
  answers : List (Request × BufferItem V) := []

inductive BufferEvent (V : Type) where
  | insert (item : BufferItem V)
  | dropSelect (request : Request)
  /-- The handler looks for the pending request's item, at first or after a wait. -/
  | handle

namespace SimpleBuffer

variable {V : Type} (allclose : List ℤ → List ℤ → Bool)

def addToBuffer (s : SimpleBuffer V) (item : BufferItem V) : Option (SimpleBuffer V) :=
  if (s.bufferSizeThreshold : ℚ) < (s.bufferSize + item.size : ℤ) then none
  else some { s with bufferSize := s.bufferSize + item.size, buffer := s.buffer ++ [item] }

/-- The body of `with self.buffer_cv` in `drop_select_handler`, up to the next wait. -/
def serve (s : SimpleBuffer V) (request : Request) : SimpleBuffer V :=
  match isBufferAvailable allclose request s.buffer.length s.buffer with
  | (true, item :: rest) =>
    { s with
      buffer := rest
      bufferSize := s.bufferSize - item.size
      pending := none
      answers := s.answers ++ [(request, item)] }
  | (_, buffer) => { s with buffer }

def step (s : SimpleBuffer V) : BufferEvent V → Option (SimpleBuffer V)
  | .insert item => s.addToBuffer item
  | .dropSelect request =>
    match s.pending with
    | none => some { s with pending := some request }
    | some _ => none
  | .handle => s.pending.map (s.serve allclose)

/-- The items inserted, first one first; the events are given latest first. -/
def inserted : List (BufferEvent V) → List (BufferItem V)
  | [] => []
  | .insert item :: earlier => inserted earlier ++ [item]
  | .dropSelect _ :: earlier | .handle :: earlier => inserted earlier

def sizes (items : List (BufferItem V)) : ℕ := (items.map BufferItem.size).sum

/-- The item is the one inserted for the request's prompt; any item will do for a request without tokens. -/
def Own (answer : Request × BufferItem V) : Prop := ∀ prompt ∈ answer.1.prompt, answer.2.prompt = prompt

/-- The books of the buffer after the events `h`. -/
structure Balanced (s : SimpleBuffer V) (h : List (BufferEvent V)) : Prop where
  /-- Each item inserted has been delivered once or is still there. -/
  once : (s.answers.map Prod.snd ++ s.buffer).Perm (inserted h)
  size : s.bufferSize = sizes s.buffer
  bound : (s.bufferSize : ℚ) ≤ s.bufferSizeThreshold

/-- What the consumer relies on. -/
structure Serves (s : SimpleBuffer V) (h : List (BufferEvent V)) : Prop extends Balanced s h where
  own : ∀ answer ∈ s.answers, Own answer
  /-- The handler does not wait while the item is there. -/
  answered : ∀ request ∈ s.pending, ∀ prompt ∈ request.prompt, prompt ≠ [] →
    ∀ item ∈ s.buffer, item.prompt = prompt → (s.serve allclose request).pending = none

/-- When the handler looks, an item of another prompt that matches the request is behind the request's own item. -/
def Unshadowed (s : SimpleBuffer V) : BufferEvent V → Prop
  | .insert _ | .dropSelect _ => True
  | .handle => ∀ request ∈ s.pending, ∀ prompt ∈ request.prompt, ∀ before item after,
      s.buffer = before ++ item :: after → 0 < matchLength allclose item request → item.prompt ≠ prompt →
        ∃ own ∈ before, own.prompt = prompt

/-! ### One turn of the handler -/

section
variable {allclose} {s : SimpleBuffer V} {request : Request} {items before after : List (BufferItem V)}
  {item : BufferItem V}

theorem isBufferAvailable_none (none : ∀ item ∈ items, matchLength allclose item request = 0)
    (turned : List (BufferItem V)) :
    isBufferAvailable allclose request items.length (items ++ turned) = (false, turned ++ items) := by
  induction items generalizing turned with
  | nil => simp [isBufferAvailable]
  | cons item items ih =>
    have miss := none item List.mem_cons_self
    rw [List.length_cons, List.cons_append, isBufferAvailable, miss, if_neg (Nat.lt_irrefl 0), List.append_assoc,
      ih (fun other member => none other (List.mem_cons_of_mem item member)), List.append_assoc]
    rfl

theorem isBufferAvailable_some (none : ∀ item ∈ before, matchLength allclose item request = 0)
    (found : 0 < matchLength allclose item request) (after turned : List (BufferItem V)) :
    isBufferAvailable allclose request (before ++ item :: after).length (before ++ item :: after ++ turned) =
      (true, item :: (after ++ turned ++ before)) := by
  induction before generalizing turned with
  | nil => simp [isBufferAvailable, found]
  | cons first before ih =>
    have miss := none first List.mem_cons_self
    have next := ih (fun other member => none other (List.mem_cons_of_mem first member)) (turned ++ [first])
    rw [List.cons_append, List.length_cons, List.cons_append, isBufferAvailable, miss, if_neg (Nat.lt_irrefl 0),
      List.append_assoc, next]
    simp

/-- The handler takes the first item that matches, and waits if there is none. -/
theorem serve_cases (allclose : List ℤ → List ℤ → Bool) (s : SimpleBuffer V) (request : Request) :
    (∀ item ∈ s.buffer, matchLength allclose item request = 0) ∧ s.serve allclose request = s ∨
      ∃ before item after, s.buffer = before ++ item :: after ∧
        (∀ other ∈ before, matchLength allclose other request = 0) ∧ 0 < matchLength allclose item request ∧
        s.serve allclose request = { s with
          buffer := after ++ before
          bufferSize := s.bufferSize - item.size
          pending := none
          answers := s.answers ++ [(request, item)] } := by
  by_cases none : ∀ item ∈ s.buffer, matchLength allclose item request = 0
  · refine Or.inl ⟨none, ?_⟩
    have waits := isBufferAvailable_none none []
    rw [List.append_nil, List.nil_append] at waits
    unfold serve
    rw [waits]
  · right
    have some : s.buffer.find? (fun item => decide (0 < matchLength allclose item request)) ≠ Option.none := by
      intro missing
      exact none fun item member => by simpa using List.find?_eq_none.mp missing item member
    obtain ⟨item, search⟩ := Option.ne_none_iff_exists'.mp some
    obtain ⟨found, before, after, split, first⟩ := List.find?_eq_some_iff_append.mp search
    have found : 0 < matchLength allclose item request := by simpa using found
    have first : ∀ other ∈ before, matchLength allclose other request = 0 := by simpa using first
    refine ⟨before, item, after, split, first, found, ?_⟩
    have turns := isBufferAvailable_some first found after []
    rw [List.append_nil, List.append_nil] at turns
    unfold serve
    rw [split, turns]

/-! ### The books -/

theorem Balanced.start (threshold : ℚ≥0) :
    Balanced ({ bufferSizeThreshold := threshold } : SimpleBuffer V) [] where
  once := List.Perm.refl _
  size := rfl
  bound := by simp

variable {t : SimpleBuffer V} {h : List (BufferEvent V)}

theorem Balanced.addToBuffer (balanced : s.Balanced h) (added : s.addToBuffer item = some t) :
    t.Balanced (.insert item :: h) := by
  unfold SimpleBuffer.addToBuffer at added
  split at added
  · cases added
  · next room =>
    cases added
    constructor
    · rw [← List.append_assoc]
      exact balanced.once.append_right [item]
    · simp [sizes, balanced.size]
    · exact le_of_not_gt room

theorem Balanced.serve (balanced : s.Balanced h) : (s.serve allclose request).Balanced (.handle :: h) := by
  rcases serve_cases allclose s request with ⟨-, waits⟩ | ⟨before, item, after, split, -, -, served⟩
  · rw [waits]
    exact ⟨balanced.once, balanced.size, balanced.bound⟩
  · have size := balanced.size
    rw [split] at size
    rw [served]
    constructor
    · have moved : ((s.answers ++ [(request, item)]).map Prod.snd ++ (after ++ before)).Perm
          (s.answers.map Prod.snd ++ (before ++ item :: after)) := by
        rw [List.map_append, List.append_assoc]
        exact (List.Perm.append_left _ (@List.perm_append_comm _ (item :: after) _))
      have once := balanced.once
      rw [split] at once
      exact moved.trans once
    · simp only [size, sizes, List.map_append, List.map_cons, List.sum_append, List.sum_cons]
      push_cast
      ring
    · have taken : ((s.bufferSize - item.size : ℤ) : ℚ) ≤ s.bufferSize := by
        exact_mod_cast sub_le_self s.bufferSize (Int.natCast_nonneg item.size)
      exact taken.trans balanced.bound

theorem Balanced.step {event : BufferEvent V} (balanced : s.Balanced h) (stepped : s.step allclose event = some t) :
    t.Balanced (event :: h) := by
  cases event with
  | insert item => exact balanced.addToBuffer stepped
  | dropSelect request =>
    simp only [SimpleBuffer.step] at stepped
    split at stepped
    · cases stepped
      exact ⟨balanced.once, balanced.size, balanced.bound⟩
    · cases stepped
  | handle =>
    obtain ⟨request, -, rfl⟩ := Option.map_eq_some_iff.mp stepped
    exact balanced.serve

/-! ### Whose item is delivered -/

variable {prompt : List ℤ}

theorem matchLength_own (reflexive : ∀ xs, allclose xs xs = true)
    (asked : prompt ∈ request.prompt) (some : prompt ≠ []) (own : item.prompt = prompt) :
    0 < matchLength allclose item request := by
  unfold matchLength
  rw [Option.mem_def.mp asked]
  simp [own, reflexive, List.length_pos_iff.mpr some]

theorem nonempty_of_matchLength (asked : prompt ∈ request.prompt)
    (matching : 0 < matchLength allclose item request) : prompt ≠ [] := by
  rintro rfl
  unfold matchLength at matching
  rw [Option.mem_def.mp asked] at matching
  simp at matching

/-- The first item that matches is the request's own exactly if none of another prompt comes before its own. -/
theorem own_iff (reflexive : ∀ xs, allclose xs xs = true) (pending : s.pending = some request)
    (split : s.buffer = before ++ item :: after)
    (first : ∀ other ∈ before, matchLength allclose other request = 0)
    (found : 0 < matchLength allclose item request) :
    Own (request, item) ↔ s.Unshadowed allclose .handle := by
  constructor
  · intro own request' asks prompt asked before' other after' split' matching different
    obtain rfl : request = request' := by simpa [pending] using asks
    have itsOwn := own prompt asked
    rw [split] at split'
    rcases List.append_eq_append_iff.mp split' with ⟨between, rfl, rest⟩ | ⟨between, rfl, rest⟩
    · cases between with
      | nil =>
        obtain ⟨rfl, -⟩ := List.cons.inj rest
        exact absurd itsOwn different
      | cons next between =>
        obtain ⟨rfl, -⟩ := List.cons.inj rest
        exact ⟨item, by simp, itsOwn⟩
    · cases between with
      | nil =>
        obtain ⟨rfl, -⟩ := List.cons.inj rest
        exact absurd itsOwn different
      | cons next between =>
        obtain ⟨rfl, -⟩ := List.cons.inj rest
        rw [first other (by simp)] at matching
        exact absurd matching (Nat.lt_irrefl 0)
  · intro unshadowed prompt asked
    by_contra different
    obtain ⟨own, member, itsOwn⟩ :=
      unshadowed request pending prompt asked before item after split found different
    have matching := matchLength_own reflexive asked (nonempty_of_matchLength asked found) itsOwn
    rw [first own member] at matching
    exact absurd matching (Nat.lt_irrefl 0)

theorem answered_of_reflexive (reflexive : ∀ xs, allclose xs xs = true)
    (asked : prompt ∈ request.prompt) (some : prompt ≠ []) (there : item ∈ s.buffer) (own : item.prompt = prompt) :
    (s.serve allclose request).pending = none := by
  rcases serve_cases allclose s request with ⟨none, -⟩ | ⟨before, item, after, -, -, -, served⟩
  · have matching := matchLength_own reflexive asked some own
    rw [none item there] at matching
    exact absurd matching (Nat.lt_irrefl 0)
  · rw [served]

theorem own_step {event : BufferEvent V} (reflexive : ∀ xs, allclose xs xs = true)
    (stepped : s.step allclose event = some t) :
    (∀ answer ∈ t.answers, Own answer) ↔ (∀ answer ∈ s.answers, Own answer) ∧ s.Unshadowed allclose event := by
  cases event with
  | insert item =>
    simp only [SimpleBuffer.step, SimpleBuffer.addToBuffer] at stepped
    split at stepped
    · cases stepped
    · cases stepped
      simp [Unshadowed]
  | dropSelect request =>
    simp only [SimpleBuffer.step] at stepped
    split at stepped
    · cases stepped
      simp [Unshadowed]
    · cases stepped
  | handle =>
    obtain ⟨request, pending, rfl⟩ := Option.map_eq_some_iff.mp stepped
    rcases serve_cases allclose s request with ⟨none, waits⟩ | ⟨before, item, after, split, first, found, served⟩
    · have unshadowed : s.Unshadowed allclose .handle := by
        intro request' asks prompt _ before item after split matching
        obtain rfl : request = request' := by simpa [pending] using asks
        rw [none item (by simp [split])] at matching
        exact absurd matching (Nat.lt_irrefl 0)
      rw [waits]
      exact (and_iff_left unshadowed).symm
    · rw [served, ← own_iff reflexive pending split first found]
      simp only [List.mem_append, List.mem_singleton, or_imp, forall_and, forall_eq]

end

/-- In every run each item is delivered once at most and the books are right; each request gets the item of its own
prompt exactly if no turn of the handler meets another prompt's item that matches in front of it. -/
theorem serves_iff_unshadowed {allclose : List ℤ → List ℤ → Bool} (reflexive : ∀ xs, allclose xs xs = true)
    {threshold : ℚ≥0} {t : SimpleBuffer V} {h : List (BufferEvent V)}
    (run : Run (fun s event s' => step allclose s event = some s') { bufferSizeThreshold := threshold } h t) :
    t.Balanced h ∧ (t.Serves allclose h ↔
      GuardedRun (Unshadowed allclose) (step allclose) { bufferSizeThreshold := threshold } h t) := by
  have balanced : t.Balanced h :=
    run.invariant (I := fun h s => s.Balanced h) (Balanced.start threshold)
      fun _ _ _ _ before stepped => before.step stepped
  have own : (∀ answer ∈ t.answers, Own answer) ↔
      GuardedRun (Unshadowed allclose) (step allclose) { bufferSizeThreshold := threshold } h t := by
    clear balanced
    induction run with
    | start => exact ⟨fun _ => .start, fun _ => nofun⟩
    | call before stepped ih => rw [own_step reflexive stepped, ih, GuardedRun.call_iff before stepped]
  refine ⟨balanced, fun serves => own.mp serves.own, fun guarded => ?_⟩
  exact { balanced with
    own := own.mpr guarded
    answered := fun _ _ _ asked some _ there own => answered_of_reflexive reflexive asked some there own }

-- A prompt that another one goes on from, and two token ids that are close

/-- `torch.allclose` with its default tolerances, taken exactly. -/
def torchAllclose (xs ys : List ℤ) : Bool :=
  (xs.zip ys).all fun (x, y) => |(x : ℚ) - y| ≤ 1 / 10 ^ 8 + 1 / 10 ^ 5 * |(y : ℚ)|

theorem torchAllclose_self (xs : List ℤ) : torchAllclose xs xs = true := by
  unfold torchAllclose
  rw [List.all_eq_true]
  rintro ⟨x, y⟩ member
  rw [List.zip_eq_zipWith, List.zipWith_self, List.mem_map] at member
  obtain ⟨z, -, same⟩ := member
  obtain ⟨rfl, rfl⟩ := Prod.mk.inj same
  have zero : |(z : ℚ) - z| = 0 := by rw [sub_self, abs_zero]
  exact decide_eq_true (zero.le.trans (by positivity))

def wholePrompt (tokens : List ℤ) : BufferItem ℕ where
  inputTokens := ⟨8, tokens⟩
  roi := ⟨1, tokens.map fun _ => true⟩
  key := ⟨2, tokens.map fun _ => 0⟩
  value := ⟨2, tokens.map fun _ => 0⟩
  hidden := ⟨2, [0]⟩
  mask := by simp

def ask (tokens : List ℤ) : Request where
  inputTokens := some tokens
  roi := tokens.map fun _ => true
  mask := by simp

theorem serves_iff_unshadowed_twoPrompts : (∀ xs, torchAllclose xs xs = true) ∧
      ∃ t, t.answers.map (fun answer => (answer.1.prompt, answer.2.prompt)) = [(some [1, 2], [1, 2])] ∧
        t.Balanced [.handle, .insert (wholePrompt [1, 2]), .dropSelect (ask [1, 2]), .insert (wholePrompt [4])] ∧
        (t.Serves torchAllclose
            [.handle, .insert (wholePrompt [1, 2]), .dropSelect (ask [1, 2]), .insert (wholePrompt [4])] ↔
          GuardedRun (Unshadowed torchAllclose) (step torchAllclose) { bufferSizeThreshold := 1000 }
            [.handle, .insert (wholePrompt [1, 2]), .dropSelect (ask [1, 2]), .insert (wholePrompt [4])] t) := by
  obtain ⟨t, run, answers⟩ := Run.exists_of_execute (f := step torchAllclose)
    (s := { bufferSizeThreshold := 1000 })
    (h := [.handle, .insert (wholePrompt [1, 2]), .dropSelect (ask [1, 2]), .insert (wholePrompt [4])])
    (P := fun t => t.answers.map (fun answer => (answer.1.prompt, answer.2.prompt)) = [(some [1, 2], [1, 2])])
    (by decide +kernel)
  exact ⟨torchAllclose_self, t, answers, serves_iff_unshadowed torchAllclose_self run⟩

theorem not_serves {allclose : List ℤ → List ℤ → Bool} {t : SimpleBuffer V} {h : List (BufferEvent V)}
    {asked got : List ℤ} (other : got ≠ asked)
    (answers : t.answers.map (fun answer => (answer.1.prompt, answer.2.prompt)) = [(some asked, got)]) :
    ¬t.Serves allclose h := by
  intro serves
  have member : (some asked, got) ∈ t.answers.map (fun answer => (answer.1.prompt, answer.2.prompt)) := by
    rw [answers]
    exact List.mem_singleton.mpr rfl
  obtain ⟨answer, there, same⟩ := List.mem_map.mp member
  obtain ⟨prompt, item⟩ := Prod.mk.inj same
  exact other (item ▸ serves.own answer there asked prompt)

/-- Asked for `[1, 2, 3]`, the handler sends the item of `[1, 2]`; asked for token 200001, that of token 200000. -/
theorem neighbour_delivered :
    (∃ t, Run (fun s event s' => step torchAllclose s event = some s') { bufferSizeThreshold := 1000 }
      [.handle, .dropSelect (ask [1, 2, 3]), .insert (wholePrompt [1, 2, 3]), .insert (wholePrompt [1, 2])] t ∧
        ¬t.Serves torchAllclose
          [.handle, .dropSelect (ask [1, 2, 3]), .insert (wholePrompt [1, 2, 3]), .insert (wholePrompt [1, 2])]) ∧
    ∃ t, Run (fun s event s' => step torchAllclose s event = some s') { bufferSizeThreshold := 1000 }
      [.handle, .dropSelect (ask [200001]), .insert (wholePrompt [200000])] t ∧
        ¬t.Serves torchAllclose [.handle, .dropSelect (ask [200001]), .insert (wholePrompt [200000])] := by
  constructor
  · obtain ⟨t, run, answers⟩ := Run.exists_of_execute (f := step torchAllclose)
      (s := { bufferSizeThreshold := 1000 })
      (h := [.handle, .dropSelect (ask [1, 2, 3]), .insert (wholePrompt [1, 2, 3]), .insert (wholePrompt [1, 2])])
      (P := fun t => t.answers.map (fun answer => (answer.1.prompt, answer.2.prompt)) = [(some [1, 2, 3], [1, 2])])
      (by decide +kernel)
    exact ⟨t, run, not_serves (by decide) answers⟩
  · obtain ⟨t, run, answers⟩ := Run.exists_of_execute (f := step torchAllclose)
      (s := { bufferSizeThreshold := 1000 })
      (h := [.handle, .dropSelect (ask [200001]), .insert (wholePrompt [200000])])
      (P := fun t => t.answers.map (fun answer => (answer.1.prompt, answer.2.prompt)) = [(some [200001], [200000])])
      (by decide +kernel)
    exact ⟨t, run, not_serves (by decide) answers⟩

end SimpleBuffer
end Vllm.Distributed.KVLookup
