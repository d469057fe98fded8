import Mathlib.Data.List.Basic
import Mathlib.Data.Nat.ModEq
import Mathlib.Tactic.Common

/-!
The keys of multi-modal inputs, `vllm/multimodal/hasher.py`: what is fed to the hash function, and when it
says which input it was made of.
-/

namespace Vllm.Frontend

abbrev Bytes := List UInt8

def encode (s : String) : Bytes := s.toUTF8.data.toList

-- Arrays and images

inductive DtypeKind where
  | bool | int | uint | float | complex
  deriving DecidableEq

structure Dtype where
  kind : DtypeKind
  itemsize : ℕ
  bigEndian : Bool := false
  deriving DecidableEq

structure NdArray where
  dtype : Dtype
  shape : List ℕ
  buffer : Bytes
  filled : buffer.length = dtype.itemsize * shape.prod
  deriving DecidableEq

def NdArray.tobytes (a : NdArray) : Bytes := a.buffer

inductive Mode where
  | bilevel | l | p | la | pa | rgb | ycbcr | lab | hsv | rgba | rgbx | cmyk | i | f | i16
  deriving DecidableEq

/-- Bytes of a row of raw data: eight pixels a byte for bilevel images, whole bytes otherwise. -/
def Mode.rowBytes (mode : Mode) (width : ℕ) : ℕ :=
  match mode with
  | .bilevel => (width + 7) / 8
  | .l | .p => width
  | .la | .pa | .i16 => 2 * width
  | .rgb | .ycbcr | .lab | .hsv => 3 * width
  | .rgba | .rgbx | .cmyk | .i | .f => 4 * width

structure Image where
  mode : Mode
  width : ℕ
  height : ℕ
  palette : Option Bytes := none
  pixels : Bytes
  filled : pixels.length = mode.rowBytes width * height
  deriving DecidableEq

/-- The raw pixels: neither size nor mode nor palette is among them. -/
def Image.tobytes (image : Image) : Bytes := image.pixels

-- Arguments

/-- A value that is neither a list, nor a tuple, nor a dict. Floats are given by their bits. -/
inductive Leaf where
  | str (s : String)
  | bytes (b : Bytes)
  | image (image : Image)
  | array (a : NdArray)
  | bool (b : Bool)
  | int (n : ℤ)
  | float (bits : UInt64)
  deriving DecidableEq

inductive DictKey where
  | str (s : String)
  | int (n : ℤ)
  deriving DecidableEq

def DictKey.format : DictKey → String
  | .str s => s
  | .int n => toString n

/-- Lists, tuples and dicts over leaves; lists and tuples are not told apart. -/
inductive Nested (L : Type) where
  | leaf (obj : L)
  | seq (elems : List (Nested L))
  | dict (entries : List (DictKey × Nested L))

abbrev Item := Nested Leaf

abbrev Kwargs := List (String × Item)

-- What is hashed

def littleEndian : ℕ → ℕ → Bytes
  | 0, _ => []
  | width + 1, n => UInt8.ofNat n :: littleEndian width (n / 256)

/-- The type that `np.array` gives an integer. -/
inductive IntType where
  | int64 | uint64 | object
  deriving DecidableEq

def intType (n : ℤ) : IntType :=
  if -2 ^ 63 ≤ n ∧ n < 2 ^ 63 then .int64 else if 2 ^ 63 ≤ n ∧ n < 2 ^ 64 then .uint64 else .object

section
-- where an integer of no machine type lies in memory: its array holds the pointer
variable (address : ℤ → UInt64)

/-- `np.array(n).tobytes()` -/
def intToBytes (n : ℤ) : Bytes :=
  if intType n = .object then littleEndian 8 (address n).toNat
  else littleEndian 8 (n % 2 ^ 64).toNat

def serializeItem : Leaf → Bytes
  | .str s => encode s
  | .bytes b => b
  | .image image => image.tobytes
  | .array a => a.tobytes
  | .bool b => [if b then 1 else 0]
  | .int n => intToBytes address n
  | .float bits => littleEndian 8 bits.toNat

mutual

def itemToBytes (key : String) : Item → List (Bytes × Bytes)
  | .leaf obj => [(encode key, serializeItem address obj)]
  | .seq elems => elemsToBytes key 0 elems
  | .dict entries => entriesToBytes key entries

def elemsToBytes (key : String) (i : ℕ) : List Item → List (Bytes × Bytes)
  | [] => []
  | elem :: elems => itemToBytes (key ++ "." ++ toString i) elem ++ elemsToBytes key (i + 1) elems

def entriesToBytes (key : String) : List (DictKey × Item) → List (Bytes × Bytes)
  | [] => []
  | (k, v) :: entries => itemToBytes (key ++ "." ++ k.format) v ++ entriesToBytes key entries

end

/-- What `hasher.update` is called with, call after call. -/
def updates (pairs : List (Bytes × Bytes)) : Bytes :=
  pairs.flatMap fun pair => pair.1 ++ pair.2

/-- The bytes that `hash_kwargs` feeds to the hasher. -/
def fed (kwargs : Kwargs) : Bytes := kwargs.flatMap fun (k, v) => updates (itemToBytes address k v)

end

-- Layouts

/-- How many bytes a leaf is fed as and what they are read as; an integer of no machine type stands
for itself. -/
inductive LeafLayout where
  | str (size : ℕ)
  | bytes (size : ℕ)
  | image (mode : Mode) (width height : ℕ) (palette : Option Bytes)
  | array (dtype : Dtype) (shape : List ℕ)
  | bool
  | int (type : IntType) (object : Option ℤ)
  | float
  deriving DecidableEq

def LeafLayout.size : LeafLayout → ℕ
  | .str size | .bytes size => size
  | .image mode width height _ => mode.rowBytes width * height
  | .array dtype shape => dtype.itemsize * shape.prod
  | .bool => 1
  | .int _ _ | .float => 8

def Leaf.layout : Leaf → LeafLayout
  | .str s => .str (encode s).length
  | .bytes b => .bytes b.length
  | .image i => .image i.mode i.width i.height i.palette
  | .array a => .array a.dtype a.shape
  | .bool _ => .bool
  | .int n => .int (intType n) (if intType n = .object then some n else none)
  | .float _ => .float

mutual

def Nested.layout : Item → Nested LeafLayout
  | .leaf obj => .leaf obj.layout
  | .seq elems => .seq (elemsLayout elems)
  | .dict entries => .dict (entriesLayout entries)

def elemsLayout : List Item → List (Nested LeafLayout)
  | [] => []
  | elem :: elems => elem.layout :: elemsLayout elems

def entriesLayout : List (DictKey × Item) → List (DictKey × Nested LeafLayout)
  | [] => []
  | (k, v) :: entries => (k, v.layout) :: entriesLayout entries

end

/-- Names and nesting of the arguments, and the layouts of their leaves. -/
def layout (kwargs : Kwargs) : List (String × Nested LeafLayout) :=
  kwargs.map fun (k, v) => (k, v.layout)

-- A stream is read in one way once its layout is known

theorem littleEndian_length (width n : ℕ) : (littleEndian width n).length = width := by
  induction width generalizing n with
  | zero => rfl
  | succ width ih => rw [littleEndian, List.length_cons, ih]

theorem littleEndian_inj {width n m : ℕ} (same : littleEndian width n = littleEndian width m)
    (nBound : n < 256 ^ width) (mBound : m < 256 ^ width) : n = m := by
  induction width generalizing n m with
  | zero => omega
  | succ width ih =>
    simp only [littleEndian, List.cons.injEq] at same
    have low : n % 256 = m % 256 := by
      have bytes := congrArg UInt8.toNat same.1
      simpa using bytes
    have high := ih same.2 (by omega) (by omega)
    omega

theorem encode_inj {s t : String} (same : encode s = encode t) : s = t := by
  apply String.toByteArray_inj.mp
  apply ByteArray.ext
  exact Array.toList_inj.mp same

section
variable {address address' : ℤ → UInt64}

theorem serializeItem_length (a : Leaf) : (serializeItem address a).length = a.layout.size := by
  cases a with
  | str s => rfl
  | bytes b => rfl
  | image i => exact i.filled
  | array a => exact a.filled
  | bool b => rfl
  | int n =>
    simp only [serializeItem, intToBytes]
    split <;> exact littleEndian_length _ _
  | float bits => exact littleEndian_length _ _

theorem intToBytes_inj {n m : ℤ} (same : Leaf.layout (.int n) = Leaf.layout (.int m))
    (fed : intToBytes address n = intToBytes address' m) : n = m := by
  simp only [Leaf.layout, LeafLayout.int.injEq] at same
  obtain ⟨type, object⟩ := same
  simp only [intToBytes, ← type] at fed object
  by_cases boxed : intType n = .object
  · simpa [boxed] using object
  · rw [if_neg boxed, if_neg boxed] at fed
    have words : (n % 2 ^ 64).toNat = (m % 2 ^ 64).toNat :=
      littleEndian_inj fed (by omega) (by omega)
    unfold intType at type boxed
    split_ifs at type boxed <;> first | omega | contradiction

theorem serializeItem_inj {a b : Leaf} (same : a.layout = b.layout)
    (fed : serializeItem address a = serializeItem address' b) : a = b := by
  cases a with
  | str s =>
    cases b with
    | str t => rw [encode_inj fed]
    | _ => cases same
  | bytes x =>
    cases b with
    | bytes y => exact congrArg Leaf.bytes fed
    | _ => cases same
  | image i =>
    cases b with
    | image j =>
      obtain ⟨mode, width, height, palette, pixels, filled⟩ := i
      obtain ⟨mode', width', height', palette', pixels', filled'⟩ := j
      cases same
      cases fed
      rfl
    | _ => cases same
  | array x =>
    cases b with
    | array y =>
      obtain ⟨dtype, shape, buffer, filled⟩ := x
      obtain ⟨dtype', shape', buffer', filled'⟩ := y
      cases same
      cases fed
      rfl
    | _ => cases same
  | bool x =>
    cases b with
    | bool y => cases x <;> cases y <;> first | rfl | simp [serializeItem] at fed
    | _ => cases same
  | int n =>
    cases b with
    | int m => rw [intToBytes_inj same fed]
    | _ => cases same
  | float x =>
    cases b with
    | float y =>
      have words := littleEndian_inj fed (UInt64.toNat_lt x) (UInt64.toNat_lt y)
      rw [UInt64.toNat_inj.mp words]
    | _ => cases same

theorem updates_append (xs ys : List (Bytes × Bytes)) :
    updates (xs ++ ys) = updates xs ++ updates ys := List.flatMap_append

theorem leaf_split {a b : Leaf} {key : String} {r s : Bytes} (same : a.layout = b.layout)
    (fed : updates [(encode key, serializeItem address a)] ++ r =
      updates [(encode key, serializeItem address' b)] ++ s) : a = b ∧ r = s := by
  simp only [updates, List.flatMap_cons, List.flatMap_nil, List.append_nil, List.append_assoc,
    List.append_cancel_left_eq] at fed
  have sizes : (serializeItem address a).length = (serializeItem address' b).length := by
    rw [serializeItem_length, serializeItem_length, same]
  obtain ⟨bytes, rest⟩ := List.append_inj fed sizes
  exact ⟨serializeItem_inj same bytes, rest⟩

mutual

/-- With the layout known, the stream of an item is found at the front of what is fed. -/
theorem item_split {key : String} {r s : Bytes} : {a b : Item} → a.layout = b.layout →
    updates (itemToBytes address key a) ++ r = updates (itemToBytes address' key b) ++ s →
      a = b ∧ r = s
  | .leaf x, b, same, fed => by
    cases b with
    | leaf y =>
      simp only [Nested.layout, Nested.leaf.injEq] at same
      simp only [itemToBytes] at fed
      obtain ⟨rfl, rest⟩ := leaf_split same fed
      exact ⟨rfl, rest⟩
    | _ => simp [Nested.layout] at same
  | .seq xs, b, same, fed => by
    cases b with
    | seq ys =>
      simp only [Nested.layout, Nested.seq.injEq] at same
      simp only [itemToBytes] at fed
      obtain ⟨rfl, rest⟩ := elems_split same fed
      exact ⟨rfl, rest⟩
    | _ => simp [Nested.layout] at same
  | .dict xs, b, same, fed => by
    cases b with
    | dict ys =>
      simp only [Nested.layout, Nested.dict.injEq] at same
      simp only [itemToBytes] at fed
      obtain ⟨rfl, rest⟩ := entries_split same fed
      exact ⟨rfl, rest⟩
    | _ => simp [Nested.layout] at same

theorem elems_split {key : String} {i : ℕ} {r s : Bytes} : {xs ys : List Item} →
    elemsLayout xs = elemsLayout ys →
    updates (elemsToBytes address key i xs) ++ r = updates (elemsToBytes address' key i ys) ++ s →
      xs = ys ∧ r = s
  | [], ys, same, fed => by
    cases ys with
    | nil => exact ⟨rfl, fed⟩
    | cons y ys => simp [elemsLayout] at same
  | x :: xs, ys, same, fed => by
    cases ys with
    | nil => simp [elemsLayout] at same
    | cons y ys =>
      simp only [elemsLayout, List.cons.injEq] at same
      simp only [elemsToBytes, updates_append, List.append_assoc] at fed
      obtain ⟨rfl, later⟩ := item_split same.1 fed
      obtain ⟨rfl, rest⟩ := elems_split same.2 later
      exact ⟨rfl, rest⟩

theorem entries_split {key : String} {r s : Bytes} : {xs ys : List (DictKey × Item)} →
    entriesLayout xs = entriesLayout ys →
    updates (entriesToBytes address key xs) ++ r = updates (entriesToBytes address' key ys) ++ s →
      xs = ys ∧ r = s
  | [], ys, same, fed => by
    cases ys with
    | nil => exact ⟨rfl, fed⟩
    | cons y ys => simp [entriesLayout] at same
  | (k, x) :: xs, ys, same, fed => by
    cases ys with
    | nil => simp [entriesLayout] at same
    | cons y ys =>
      obtain ⟨k', y⟩ := y
      simp only [entriesLayout, List.cons.injEq, Prod.mk.injEq] at same
      obtain ⟨⟨rfl, first⟩, others⟩ := same
      simp only [entriesToBytes, updates_append, List.append_assoc] at fed
      obtain ⟨rfl, later⟩ := item_split first fed
      obtain ⟨rfl, rest⟩ := entries_split others later
      exact ⟨rfl, rest⟩

end

theorem kwargs_split {xs ys : Kwargs} (same : layout xs = layout ys)
    (equal : fed address xs = fed address' ys) : xs = ys := by
  induction xs generalizing ys with
  | nil =>
    cases ys with
    | nil => rfl
    | cons y ys => simp [layout] at same
  | cons x xs ih =>
    cases ys with
    | nil => simp [layout] at same
    | cons y ys =>
      obtain ⟨k, x⟩ := x
      obtain ⟨k', y⟩ := y
      simp only [layout, List.map_cons, List.cons.injEq, Prod.mk.injEq] at same
      obtain ⟨⟨rfl, first⟩, others⟩ := same
      simp only [fed, List.flatMap_cons] at equal
      obtain ⟨rfl, rest⟩ := item_split first equal
      rw [ih others rest]

/-- Arguments that are fed alike are the same exactly if they have the same layout. -/
theorem fed_iff_layout {xs ys : Kwargs} (equal : fed address xs = fed address' ys) :
    xs = ys ↔ layout xs = layout ys := by
  constructor
  · intro same
    rw [same]
  · intro same
    exact kwargs_split same equal

section
-- the hash function, `blake3(…).hexdigest()`
variable (blake3 : Bytes → String)

def hashKwargs (address : ℤ → UInt64) (kwargs : Kwargs) : String := blake3 (fed address kwargs)

/-- The arguments that make the key of `ProcessingCache` and the hash in `mm_hashes`. -/
def itemKwargs (modelId modality : String) (inputItem : Item) (inputKwargs : Kwargs) : Kwargs :=
  ("model_id", .leaf (.str modelId)) :: (modality, inputItem) :: inputKwargs

/-- With a hash function free of collisions, one hash stands for one item as far as layouts are told
apart by other means. -/
theorem hashKwargs_iff_layout {blake3 : Bytes → String} (collisionFree : Function.Injective blake3)
    {modelId modality : String} {a b : Item} {inputKwargs : Kwargs}
    (equal : hashKwargs blake3 address (itemKwargs modelId modality a inputKwargs) =
      hashKwargs blake3 address' (itemKwargs modelId modality b inputKwargs)) :
    a = b ↔ a.layout = b.layout := by
  have kwargs := fed_iff_layout (collisionFree equal)
  simpa [itemKwargs, layout] using kwargs

end

end

-- Two images of the same pixels

def flatImage (width height : ℕ) (pixels : Bytes)
    (filled : pixels.length = Mode.l.rowBytes width * height) : Item :=
  .leaf (.image { mode := .l, width, height, pixels, filled })

def wide : Kwargs := itemKwargs "model" "image" (flatImage 2 1 [0, 255] rfl) []

def tall : Kwargs := itemKwargs "model" "image" (flatImage 1 2 [0, 255] rfl) []

theorem tall_fed_as_wide : fed (fun _ => 0) wide = fed (fun _ => 0) tall ∧ wide ≠ tall := by
  constructor
  · rfl
  · simp only [wide, tall, itemKwargs, flatImage, ne_eq, List.cons.injEq, Prod.mk.injEq,
      Nested.leaf.injEq, Leaf.image.injEq, true_and, and_true]
    decide

theorem fed_iff_layout_tall : wide = tall ↔ layout wide = layout tall :=
  fed_iff_layout (rfl : fed (fun _ => 0) wide = fed (fun _ => 0) tall)

end Vllm.Frontend
