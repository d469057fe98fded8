import VllmProofs.Block.PrefixCaching

/-!
Content hashes along a chain of blocks. Reading one lets blocks remember hashes and changes nothing
else, and as long as blocks are filled in order every hash is that of the whole chain up to its
block.
-/

namespace Vllm
open Exec Heaped

/-- The tokens of a block and the extra hash it was made with. -/
abbrev Content := List TokenId × Option ℤ

variable {contents : List Content}

section
variable [PythonHash]

def chainHash : List Content → PrefixHash
  | [] => PythonHash.noneHash
  | (tokenIds, extraHash) :: earlier =>
    hashBlockTokens earlier.isEmpty (some (chainHash earlier)) tokenIds extraHash

def allFull (blockSize : ℕ) (contents : List Content) : Bool :=
  contents.all fun content => content.1.length = blockSize

def chainHash? (blockSize : ℕ) (contents : List Content) : Option PrefixHash :=
  if allFull blockSize contents then some (chainHash contents) else none

/-- A full block comes after full blocks, whose hash is not the one that stands for no block. -/
def InOrder (blockSize : ℕ) : List Content → Prop
  | [] => True
  | content :: earlier => (content.1.length = blockSize → allFull blockSize earlier = true ∧
      (earlier ≠ [] → chainHash earlier ≠ PythonHash.noneHash)) ∧ InOrder blockSize earlier

omit [PythonHash] in
theorem allFull_cons {n : ℕ} {content : Content} {earlier : List Content} :
    allFull n (content :: earlier) = true ↔ content.1.length = n ∧ allFull n earlier = true := by
  simp [allFull]

omit [PythonHash] in
theorem allFull_iff {n : ℕ} :
    allFull n contents = true ↔ ∀ content ∈ contents, content.1.length = n := by
  simp [allFull]

theorem InOrder.suffix {n : ℕ} {later earlier : List Content} (ordered : InOrder n (later ++ earlier)) :
    InOrder n earlier := by
  induction later with
  | nil => exact ordered
  | cons content later ih => exact ih ordered.2

end

def Block.unhashed (b : Block) : Block := { b with cachedContentHash := none }

namespace Objects

/-- The same blocks, apart from what they remember. -/
def Rehashed (o o' : Objects) : Prop := ∀ x, (o'.block x).unhashed = (o.block x).unhashed

instance : IsPreorder Objects Rehashed where
  refl _ _ := rfl
  trans _ _ _ first second x := (second x).trans (first x)

def content (o : Objects) (r : BlockRef) : Content := ((o.block r).tokenIds, (o.block r).extraHash)

def Linked (o : Objects) : List BlockRef → Prop
  | [] => True
  | r :: earlier => (o.block r).prevBlock = earlier.head? ∧ Linked o earlier

variable {o o' : Objects} {r : BlockRef} {chain : List BlockRef} {n : ℕ}

theorem Rehashed.content (rehashed : Rehashed o o') : o'.content = o.content := by
  funext x
  have tokens : (o'.block x).unhashed.tokenIds = (o.block x).unhashed.tokenIds := congrArg _ (rehashed x)
  have extra : (o'.block x).unhashed.extraHash = (o.block x).unhashed.extraHash := congrArg _ (rehashed x)
  exact Prod.ext tokens extra

theorem Rehashed.prevBlock (rehashed : Rehashed o o') (x : BlockRef) :
    (o'.block x).prevBlock = (o.block x).prevBlock := by
  have same : (o'.block x).unhashed.prevBlock = (o.block x).unhashed.prevBlock := congrArg _ (rehashed x)
  exact same

theorem Linked.congr (linked : Linked o chain)
    (same : ∀ x ∈ chain, (o'.block x).prevBlock = (o.block x).prevBlock) : Linked o' chain := by
  induction chain with
  | nil => trivial
  | cons r earlier ih =>
    exact ⟨(same r List.mem_cons_self).trans linked.1,
      ih linked.2 fun x member => same x (List.mem_cons_of_mem _ member)⟩

theorem Linked.length_le (linked : Linked o (r :: chain)) (nodup : (r :: chain).Nodup) :
    chain.length ≤ o.size := by
  have written : ∀ x ∈ (r :: chain).dropLast, x ∈ o.keys := by
    clear nodup
    induction chain generalizing r with
    | nil => simp
    | cons p earlier ih =>
      intro x member
      rw [List.dropLast_cons_cons] at member
      rcases List.mem_cons.mp member with rfl | later
      · rw [Dict.mem_keys_iff]
        by_contra unwritten
        have missing : o.get? x = none := Option.eq_none_iff_forall_ne_some.mpr fun b found => unwritten ⟨b, found⟩
        have here := linked.1
        simp [block, missing] at here
      · exact ih linked.2 x later
  have short := (List.subperm_of_subset (nodup.sublist (List.dropLast_sublist _)) written).length_le
  simpa [Dict.keys, Dict.size] using short

variable [PythonHash]

def Remembers (blockSize : ℕ) (o : Objects) : List BlockRef → Prop
  | [] => True
  | r :: earlier => (∀ h, (o.block r).cachedContentHash = some h →
      chainHash? blockSize ((r :: earlier).map o.content) = some h) ∧ Remembers blockSize o earlier

theorem Remembers.congr (remembers : Remembers n o chain)
    (same : ∀ x ∈ chain, o'.content x = o.content x ∧
      (o'.block x).cachedContentHash = (o.block x).cachedContentHash) : Remembers n o' chain := by
  induction chain with
  | nil => trivial
  | cons r earlier ih =>
    refine ⟨fun h known => ?_, ih remembers.2 fun x member => same x (List.mem_cons_of_mem _ member)⟩
    rw [List.map_congr_left fun x member => (same x member).1]
    exact remembers.1 h ((same r List.mem_cons_self).2 ▸ known)

omit [PythonHash] in
theorem rememberHash_rehashed (r : BlockRef) (h : PrefixHash) (o : Objects) :
    Rehashed o (o.rememberHash r h) := by
  intro x
  unfold rememberHash
  rw [block_update]
  split
  · rename_i same
    rw [same]
    rfl
  · rfl

theorem computeHash_rehashed (r : BlockRef) (first : Bool) (prev : Option PrefixHash) :
    Keeps Rehashed (computeHash r first prev) := by
  refine .ite (.pure _) fun o found o' call => ?_
  rw [get_bind, set_bind] at call
  rw [← (pure_ok call).2]
  exact rememberHash_rehashed r _ o

theorem readHash_rehashed (blockSize depth : ℕ) (r : BlockRef) :
    Keeps Rehashed (readHash blockSize depth r) := by
  induction depth generalizing r with
  | zero => exact .throw _
  | succ depth ih =>
    refine .bind .get fun o => ?_
    dsimp only
    split
    · exact .pure _
    · refine .ite (.pure _) ?_
      split
      · exact computeHash_rehashed _ _ _
      · exact .bind (ih _) fun _ => computeHash_rehashed _ _ _

/-- The hash of a full block, when that of the block before it does not stand for no block. -/
theorem computeHash_eq (first : Bool) {prev : PrefixHash}
    (proper : first = false → prev ≠ PythonHash.noneHash) :
    computeHash r first (some prev) o =
      .ok (some (hashBlockTokens first (some prev) (o.block r).tokenIds (o.block r).extraHash))
        (o.rememberHash r (hashBlockTokens first (some prev) (o.block r).tokenIds (o.block r).extraHash)) := by
  unfold computeHash
  rw [if_neg fun both => proper both.2 (Option.some.inj both.1)]
  rfl

structure Read (blockSize : ℕ) (chain : List BlockRef) (o o' : Objects) : Prop where
  rehashed : Rehashed o o'
  others : ∀ x ∉ chain, o'.block x = o.block x
  remembers : Remembers blockSize o' chain

variable {earlier : List BlockRef}

theorem Read.remember {h : PrefixHash} (read : Read n earlier o o')
    (fresh : r ∉ earlier) (hash : chainHash? n ((r :: earlier).map o.content) = some h) :
    Read n (r :: earlier) o (o'.rememberHash r h) := by
  have rehashed : Rehashed o (o'.rememberHash r h) :=
    IsTrans.trans _ _ _ read.rehashed (rememberHash_rehashed r h o')
  have elsewhere : ∀ x, x ≠ r → (o'.rememberHash r h).block x = o'.block x := fun x different =>
    block_update_ne _ different
  refine ⟨rehashed, fun x outside => ?_, fun h' known => ?_, read.remembers.congr fun x member => ?_⟩
  · rw [List.mem_cons, not_or] at outside
    rw [elsewhere x outside.1, read.others x outside.2]
  · have known : some h = some h' := by
      simpa [rememberHash] using known
    rw [rehashed.content, hash, known]
  · have different : x ≠ r := fun same => fresh (same ▸ member)
    unfold content
    rw [elsewhere x different]
    exact ⟨rfl, rfl⟩

theorem Read.refl (remembers : Remembers n o chain) : Read n chain o o :=
  ⟨fun _ => rfl, fun _ _ => rfl, remembers⟩

/-- A block answers by itself when it remembers its hash or is not full. -/
theorem readHash_step {compute : Method Objects (Option PrefixHash)}
    (remembers : Remembers n o (r :: earlier))
    (computes : (o.block r).tokenIds.length = n → ∃ o',
      compute o = .ok (chainHash? n ((r :: earlier).map o.content)) o' ∧ Read n (r :: earlier) o o') :
    ∃ o', (match (o.block r).cachedContentHash with
      | some contentHash => pure (some contentHash)
      | none => if o.isFull n r = false then pure none else compute : Method Objects (Option PrefixHash)) o =
        .ok (chainHash? n ((r :: earlier).map o.content)) o' ∧ Read n (r :: earlier) o o' := by
  cases memo : (o.block r).cachedContentHash with
  | some h =>
    rw [remembers.1 h memo]
    exact ⟨o, rfl, .refl remembers⟩
  | none =>
    by_cases full : (o.block r).tokenIds.length = n
    · have filled : o.isFull n r = true := by simp [isFull, full]
      simpa [filled] using computes full
    · have partly : o.isFull n r = false := by simp [isFull, full]
      refine ⟨o, ?_, .refl remembers⟩
      simp [partly, chainHash?, allFull, content, full]

/-- Filled in order, a chain gives its last block the hash of the whole chain, or none. -/
theorem readHash_chain {depth : ℕ} (linked : Linked o (r :: earlier))
    (nodup : (r :: earlier).Nodup) (ordered : InOrder n ((r :: earlier).map o.content))
    (remembers : Remembers n o (r :: earlier)) (enough : earlier.length < depth) :
    ∃ o', readHash n depth r o = .ok (chainHash? n ((r :: earlier).map o.content)) o' ∧
      Read n (r :: earlier) o o' := by
  induction earlier generalizing r depth with
  | nil =>
    obtain ⟨depth, rfl⟩ := Nat.exists_eq_add_one_of_ne_zero (Nat.ne_zero_of_lt enough)
    rw [readHash, get_bind]
    refine readHash_step remembers fun full => ?_
    have hash : chainHash? n ([r].map o.content) = some (chainHash ([r].map o.content)) :=
      if_pos (by simp [allFull, content, full])
    rw [linked.1, hash]
    exact ⟨_, computeHash_eq true (by simp), (Read.refl remembers.2).remember List.not_mem_nil hash⟩
  | cons p rest ih =>
    obtain ⟨depth, rfl⟩ := Nat.exists_eq_add_one_of_ne_zero (Nat.ne_zero_of_lt enough)
    obtain ⟨fresh, nodup⟩ := List.nodup_cons.mp nodup
    rw [readHash, get_bind]
    refine readHash_step remembers fun full => ?_
    obtain ⟨filled, proper⟩ := ordered.1 full
    obtain ⟨o', read, reading⟩ := ih linked.2 nodup ordered.2 remembers.2 (by simpa using enough)
    have before : chainHash? n ((p :: rest).map o.content) = some (chainHash ((p :: rest).map o.content)) :=
      if_pos filled
    have hash : chainHash? n ((r :: p :: rest).map o.content) =
        some (chainHash ((r :: p :: rest).map o.content)) :=
      if_pos (allFull_cons.mpr ⟨full, filled⟩)
    rw [before] at read
    have same : o'.content r = o.content r := congrFun reading.rehashed.content r
    have computed := computeHash_eq (o := o') (r := r) false fun _ => proper (by simp)
    rw [linked.1, hash]
    refine ⟨_, ?_, reading.remember fresh hash⟩
    simp only [List.head?_cons, bind_of_ok read, computed]
    rw [show (o'.block r).tokenIds = (o.block r).tokenIds from congrArg Prod.fst same,
      show (o'.block r).extraHash = (o.block r).extraHash from congrArg Prod.snd same]
    rfl

variable {later : List BlockRef}

theorem Read.extend (read : Read n earlier o o')
    (nodup : (later ++ earlier).Nodup) (remembers : Remembers n o (later ++ earlier)) :
    Remembers n o' (later ++ earlier) := by
  induction later with
  | nil => exact read.remembers
  | cons x later ih =>
    obtain ⟨fresh, nodup⟩ := List.nodup_cons.mp nodup
    refine ⟨fun h known => ?_, ih nodup remembers.2⟩
    rw [read.others x fun member => fresh (List.mem_append_right _ member)] at known
    rw [read.rehashed.content]
    exact remembers.1 h known

structure Chain (blockSize : ℕ) (chain : List BlockRef) (contents : List Content) (o : Objects) : Prop where
  nodup : chain.Nodup
  linked : Linked o chain
  contents : chain.map o.content = contents
  remembers : Remembers blockSize o chain

theorem Chain.congr (held : Chain n chain contents o)
    (same : ∀ x ∈ chain, (o'.block x).prevBlock = (o.block x).prevBlock ∧ o'.content x = o.content x ∧
      (o'.block x).cachedContentHash = (o.block x).cachedContentHash) : Chain n chain contents o' :=
  ⟨held.nodup, held.linked.congr fun x member => (same x member).1,
    (List.map_congr_left fun x member => (same x member).2.1).trans held.contents,
    held.remembers.congr fun x member => (same x member).2⟩

omit [PythonHash] in
theorem Linked.suffix (linked : Linked o (later ++ earlier)) : Linked o earlier := by
  induction later with
  | nil => exact linked
  | cons x later ih => exact ih linked.2

theorem Remembers.suffix (remembers : Remembers n o (later ++ earlier)) :
    Remembers n o earlier := by
  induction later with
  | nil => exact remembers
  | cons x later ih => exact ih remembers.2

/-- Every block of a chain that is filled in order has the hash of the chain up to it, or none. -/
theorem Chain.contentHash
    (held : Chain n (later ++ r :: earlier) contents o) (ordered : InOrder n contents) :
    ∃ o', Objects.contentHash n r o = .ok (chainHash? n ((r :: earlier).map o.content)) o' ∧
      Chain n (later ++ r :: earlier) contents o' ∧ Rehashed o o' := by
  obtain ⟨nodup, linked, rfl, remembers⟩ := held
  have nodup' := nodup.sublist (List.sublist_append_right later _)
  have enough := linked.suffix.length_le nodup'
  rw [List.map_append] at ordered
  obtain ⟨o', read, reading⟩ := readHash_chain linked.suffix nodup' ordered.suffix remembers.suffix
    (Nat.lt_succ_of_le enough)
  refine ⟨o', read, ⟨nodup, linked.congr fun x _ => reading.rehashed.prevBlock x, ?_,
    reading.extend nodup remembers⟩, reading.rehashed⟩
  rw [reading.rehashed.content]

end Objects

namespace PrefixCachingBlockAllocator

variable {ε : Type} [PythonHash] {s u : Heaped (PrefixCachingBlockAllocator ε)} {r : BlockRef}

theorem contentHash_ok {found : Option PrefixHash} (call : contentHash r s = .ok found u) :
    u.self = s.self ∧ Objects.Rehashed s.objects u.objects := by
  unfold contentHash at call
  rw [get_bind] at call
  obtain ⟨o, read, rfl⟩ := zoom_ok call
  refine ⟨rfl, ?_⟩
  unfold Objects.contentHash at read
  rw [get_bind] at read
  exact Objects.readHash_rehashed _ _ _ _ _ _ read

end PrefixCachingBlockAllocator
end Vllm
