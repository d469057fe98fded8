import VllmProofs.Block.HashChain
import VllmProofs.Block.Held
import VllmProofs.Block.PrefixLookup

/-!
Appending to the blocks of a chain. As long as a block is filled only after the blocks before it,
every block has the hash of the whole chain up to it, and none before that chain is full.
-/

namespace Vllm
open Exec Heaped Evictor

section
variable [PythonHash] {n : ℕ}

/-- More tokens in a block that is not full keep the order, if the block may be full now. -/
theorem InOrder.replace {later earlier : List Content} {old new : Content}
    (ordered : InOrder n (later ++ old :: earlier)) (partly : old.1.length ≠ n)
    (filled : new.1.length = n → allFull n earlier = true ∧
      (earlier ≠ [] → chainHash earlier ≠ PythonHash.noneHash)) : InOrder n (later ++ new :: earlier) := by
  induction later with
  | nil => exact ⟨filled, ordered.2⟩
  | cons content later ih =>
    refine ⟨fun full => ?_, ih ordered.2⟩
    have before : allFull n (later ++ old :: earlier) = true := (ordered.1 full).1
    exact absurd (allFull_iff.mp before old (by simp)) partly

end

variable {tokenIds : List TokenId}

namespace Objects

variable [PythonHash] {n : ℕ} {o : Objects} {r : BlockRef} {later earlier : List BlockRef}

def appended (o : Objects) (r : BlockRef) (tokenIds : List TokenId) : Objects :=
  o.update r fun b => { b with tokenIds := b.tokenIds ++ tokenIds }

omit [PythonHash] in
theorem content_appended (tokenIds : List TokenId) (x : BlockRef) : (o.appended r tokenIds).content x =
    if x = r then ((o.content r).1 ++ tokenIds, (o.content r).2) else o.content x := by
  unfold appended content
  rw [block_update]
  split <;> rfl

omit [PythonHash] in
theorem map_content_appended (outside : r ∉ earlier) :
    earlier.map (o.appended r tokenIds).content = earlier.map o.content := by
  refine List.map_congr_left fun x member => ?_
  have different : x ≠ r := fun same => outside (same ▸ member)
  rw [content_appended, if_neg different]

theorem Remembers.partly (remembers : Remembers n o (later ++ r :: earlier))
    (partly : (o.block r).tokenIds.length ≠ n) {x : BlockRef} (member : x ∈ later ++ [r]) :
    (o.block x).cachedContentHash = none := by
  have broken : ∀ rest : List BlockRef, r ∈ rest → chainHash? n (rest.map o.content) = none := by
    intro rest inside
    refine if_neg fun full => partly ?_
    exact allFull_iff.mp full _ (List.mem_map_of_mem inside)
  induction later with
  | nil =>
    obtain rfl := List.mem_singleton.mp member
    refine Option.eq_none_iff_forall_ne_some.mpr fun h known => ?_
    have hash := remembers.1 h known
    rw [broken _ List.mem_cons_self] at hash
    cases hash
  | cons y later ih =>
    rcases List.mem_cons.mp member with rfl | rest
    · refine Option.eq_none_iff_forall_ne_some.mpr fun h known => ?_
      have hash : chainHash? n ((x :: (later ++ r :: earlier)).map o.content) = some h := remembers.1 h known
      rw [broken _ (List.mem_cons_of_mem _ (List.mem_append_right _ List.mem_cons_self))] at hash
      cases hash
    · exact ih remembers.2 rest

theorem Remembers.of_none (none : ∀ x ∈ later, (o.block x).cachedContentHash = none)
    (remembers : Remembers n o earlier) : Remembers n o (later ++ earlier) := by
  induction later with
  | nil => exact remembers
  | cons x later ih =>
    refine ⟨fun h known => ?_, ih fun y member => none y (List.mem_cons_of_mem _ member)⟩
    rw [none x List.mem_cons_self] at known
    cases known

theorem Chain.append {contents : List Content} (held : Chain n (later ++ r :: earlier) contents o)
    (partly : (o.block r).tokenIds.length ≠ n) (tokenIds : List TokenId) :
    Chain n (later ++ r :: earlier) ((later ++ r :: earlier).map (o.appended r tokenIds).content)
      (o.appended r tokenIds) := by
  obtain ⟨nodup, linked, -, remembers⟩ := held
  have outside : r ∉ earlier := (List.nodup_cons.mp (nodup.sublist (List.sublist_append_right later _))).1
  have fields : ∀ x, ((o.appended r tokenIds).block x).prevBlock = (o.block x).prevBlock ∧
      ((o.appended r tokenIds).block x).cachedContentHash = (o.block x).cachedContentHash := by
    intro x
    unfold appended
    rw [block_update]
    split
    · rename_i same
      rw [same]
      exact ⟨rfl, rfl⟩
    · exact ⟨rfl, rfl⟩
  have silent : ∀ x ∈ later ++ [r], ((o.appended r tokenIds).block x).cachedContentHash = none :=
    fun x member => (fields x).2.trans (remembers.partly partly member)
  refine ⟨nodup, linked.congr fun x _ => (fields x).1, rfl, ?_⟩
  rw [List.append_cons]
  refine .of_none silent (remembers.suffix.2.congr fun x member => ⟨?_, (fields x).2⟩)
  have different : x ≠ r := fun same => outside (same ▸ member)
  rw [content_appended, if_neg different]

end Objects

namespace PrefixCachingBlockAllocator

variable {ε β : Type} [PythonHash] {n : ℕ} {chain : List BlockRef} {contents : List Content}
  {s t : Heaped (PrefixCachingBlockAllocator ε)} {r : BlockRef}

structure Carries (n : ℕ) (chain : List BlockRef) (contents : List Content)
    (s : Heaped (PrefixCachingBlockAllocator ε)) : Prop where
  holds : Holds n {x | x ∈ chain} (fun _ _ => True) s
  chain : Objects.Chain n chain contents s.objects

def hashView (b : Block) : Option BlockRef × Content × Option PrefixHash :=
  (b.prevBlock, (b.tokenIds, b.extraHash), b.cachedContentHash)

theorem carries_of_holds {method : Method (Heaped (PrefixCachingBlockAllocator ε)) β}
    (inner : ∀ K : BlockRef → Block → Prop, (∀ x, Block.Blind (K x)) →
      Preserves (Holds n {x | x ∈ chain} K) method) : Preserves (Carries n chain contents) method := by
  intro s carries
  have known : Holds n {x | x ∈ chain} (fun x b => hashView b = hashView (s.objects.block x)) s :=
    ⟨carries.holds.1, carries.holds.2.valid, carries.holds.2.held, fun _ _ => rfl⟩
  have still : ∀ t : Heaped (PrefixCachingBlockAllocator ε), Holds n {x | x ∈ chain} (fun x b => hashView b = hashView (s.objects.block x)) t →
      Carries n chain contents t := by
    rintro t ⟨size, valid, held, same⟩
    refine ⟨⟨size, valid, held, fun _ _ => trivial⟩, carries.chain.congr fun x member => ?_⟩
    have same : hashView (t.objects.block x) = hashView (s.objects.block x) := same x member
    exact ⟨congrArg Prod.fst same, congrArg (fun view => view.2.1) same, congrArg (fun view => view.2.2) same⟩
  refine (inner _ (fun x => ⟨fun _ _ same => same, fun _ _ same => same, fun _ _ same => same⟩) s known).mono ?_ ?_
  · exact fun _ t kept => still t kept
  · exact fun _ t kept => still t kept

variable {later earlier : List BlockRef}

theorem contentHash_carries
    (carries : Carries n (later ++ r :: earlier) contents s) (ordered : InOrder n contents) :
    ∃ u, contentHash r s = .ok (chainHash? n ((r :: earlier).map s.objects.content)) u ∧
      Carries n (later ++ r :: earlier) contents u ∧ u.self = s.self ∧
      u.objects.content = s.objects.content := by
  obtain ⟨o, read, held, rehashed⟩ := carries.chain.contentHash ordered
  refine ⟨{ s with objects := o }, ?_, ⟨⟨carries.holds.1, carries.holds.2.valid, carries.holds.2.held,
    fun _ _ => trivial⟩, held⟩, rfl, rehashed.content⟩
  unfold contentHash
  rw [get_bind, show s.self.blockSize = n from carries.holds.1]
  exact zoom_of_ok read

theorem Carries.suffix (before : Carries n (later ++ earlier) contents s)
    (after : Carries n (later ++ earlier) contents t) :
    earlier.map t.objects.content = earlier.map s.objects.content := by
  have same := List.map_inj_left.mp (after.chain.contents.trans before.chain.contents.symm)
  exact List.map_congr_left fun x member => same x (List.mem_append_right later member)

theorem Carries.partly (carries : Carries n (later ++ r :: earlier) contents s)
    (ordered : InOrder n contents) (unhashed : chainHash? n ((r :: earlier).map s.objects.content) = none) :
    (s.block r).tokenIds.length ≠ n := by
  intro full
  rw [← carries.chain.contents, List.map_append] at ordered
  have whole : allFull n ((r :: earlier).map s.objects.content) = true :=
    allFull_cons.mpr ⟨full, (ordered.suffix.1 full).1⟩
  rw [chainHash?, if_pos whole] at unhashed
  cases unhashed

theorem contentHash_preserves (member : r ∈ chain) (ordered : InOrder n contents) :
    Preserves (Carries n chain contents)
      (contentHash r : Method (Heaped (PrefixCachingBlockAllocator ε)) (Option PrefixHash)) := by
  intro s carries
  obtain ⟨later, earlier, rfl⟩ := List.append_of_mem member
  obtain ⟨u, read, held, -⟩ := contentHash_carries carries ordered
  exact (wp_of_ok read).mpr held

variable [Evictor ε]

theorem promoteToImmutableBlock_preserves (member : r ∈ chain) (ordered : InOrder n contents) :
    Preserves (Carries n chain contents)
      (promoteToImmutableBlock r : Method (Heaped (PrefixCachingBlockAllocator ε)) BlockId) := by
  refine .bind (contentHash_preserves member ordered) fun found => ?_
  cases found with
  | none => exact .throw _
  | some h =>
    refine carries_of_holds fun K blind => .bind (presentBlockId_holds r) fun b =>
      .bind (onSelf_holds fun _ => onRefcounter_stable shape_stable _) fun _ =>
      .bind (assertThat_preserves _) fun _ => .bind .get fun s => ?_
    cases s.self.cachedBlocks.get? h with
    | none => exact .bind (register_holds b h) fun _ => .pure _
    | some c =>
      exact .bind (decrRefcountHashlessBlock_holds fun _ => blind r) fun _ =>
        .bind (setBlockId_holds (fun _ => blind r) _) fun _ =>
          .bind (incrRefcountCachedBlock_holds fun _ => blind r) fun _ => .pure _

def appendedContents (chain : List BlockRef) (o : Objects) (r : BlockRef) (tokenIds : List TokenId) :
    List Content := chain.map (o.appended r tokenIds).content

omit [PythonHash] [Evictor ε] in
theorem appendedContents_congr {o o' : Objects} (same : o'.content = o.content) (tokenIds : List TokenId) :
    appendedContents chain o' r tokenIds = appendedContents chain o r tokenIds := by
  refine List.map_congr_left fun x _ => ?_
  rw [Objects.content_appended, Objects.content_appended, same]

theorem appendInner_carries
    (carries : Carries n (later ++ r :: earlier) contents s) (some : tokenIds.length ≠ 0)
    (partly : (s.block r).tokenIds.length ≠ n) :
    wp (appendInner r tokenIds)
      (fun _ t => Carries n (later ++ r :: earlier)
        (appendedContents (later ++ r :: earlier) s.objects r tokenIds) t)
      (fun _ t => Carries n (later ++ r :: earlier) contents t ∨ Carries n (later ++ r :: earlier)
        (appendedContents (later ++ r :: earlier) s.objects r tokenIds) t) s := by
  unfold appendInner
  simp only [wp_bind, wp_get, wp_onObjects, Objects.appendTokenIdsNoCow, if_neg some, wp_assertThat, wp_set]
  refine ⟨fun _ => ?_, fun _ => .inl carries⟩
  have written : Carries n (later ++ r :: earlier)
      (appendedContents (later ++ r :: earlier) s.objects r tokenIds)
      ⟨s.objects.appended r tokenIds, s.self⟩ :=
    ⟨⟨carries.holds.1, carries.holds.2.valid, carries.holds.2.held, fun _ _ => trivial⟩,
      carries.chain.append partly tokenIds⟩
  exact (carries_of_holds (fun K blind => copyOnWrite_holds (fun _ => blind r) _) _ written).mono
    (fun _ _ kept => kept) fun _ _ kept => .inr kept

/-- An append writes the tokens or, when it raises, perhaps does not, and a block of a chain that is not
full yet is not registered. -/
theorem appendTokenIds_carries
    (carries : Carries n (later ++ r :: earlier) contents s) (ordered : InOrder n contents)
    (filled : (s.block r).tokenIds.length ≠ n →
      InOrder n (appendedContents (later ++ r :: earlier) s.objects r tokenIds)) :
    wp (appendTokenIds r tokenIds)
      (fun _ t => ((s.block r).tokenIds.length ≠ n ∧ Carries n (later ++ r :: earlier)
        (appendedContents (later ++ r :: earlier) s.objects r tokenIds) t) ∧
        (chainHash? n ((r :: earlier).map t.objects.content) = none → NoneRegistered s.self t.self))
      (fun _ t => (Carries n (later ++ r :: earlier) contents t ∨
        (s.block r).tokenIds.length ≠ n ∧ Carries n (later ++ r :: earlier)
        (appendedContents (later ++ r :: earlier) s.objects r tokenIds) t) ∧
        (chainHash? n ((r :: earlier).map t.objects.content) = none → NoneRegistered s.self t.self)) s := by
  have same : NoneRegistered s.self s.self := fun _ _ found => found
  obtain ⟨u, read, held, self, contentSame⟩ := contentHash_carries carries ordered
  unfold appendTokenIds
  simp only [wp_bind, wp_of_ok read, wp_assertThat, wp_get]
  refine ⟨fun unhashed => ⟨fun _ => ?_, fun _ => ⟨.inl held, fun _ => self ▸ same⟩⟩,
    fun _ => ⟨.inl held, fun _ => self ▸ same⟩⟩
  have partly : (u.block r).tokenIds.length ≠ n :=
    held.partly ordered ((Carries.suffix carries held).symm ▸ unhashed)
  have unfilled := carries.partly ordered unhashed
  have filled := filled unfilled
  rw [wp_ite]
  refine ⟨fun empty => ?_, fun some => ?_⟩
  · obtain rfl := List.eq_nil_of_length_eq_zero empty
    have unchanged : appendedContents (later ++ r :: earlier) s.objects r [] = contents := by
      rw [← carries.chain.contents]
      refine List.map_congr_left fun x _ => ?_
      rw [Objects.content_appended, List.append_nil]
      split <;> simp [*]
    rw [unchanged]
    exact ⟨⟨unfilled, held⟩, fun _ => self ▸ same⟩
  · simp only [wp_bind, wp_modify]
    rw [← appendedContents_congr contentSame] at filled ⊢
    have inner := (appendInner_carries held some partly).and
      (appendInner_keeps (noneRegistered_aloof s.self) r tokenIds u (self ▸ same))
    refine inner.mono ?_ ?_
    case refine_2 =>
      rintro _ _ ⟨kept, registered⟩
      exact ⟨kept.imp_right (⟨unfilled, ·⟩), fun _ => registered⟩
    rintro _ v ⟨written, registered⟩
    have totalled : Carries n (later ++ r :: earlier)
        (appendedContents (later ++ r :: earlier) u.objects r tokenIds)
        { v with objects := updateNumTokensTotal r v.objects } :=
      carries_of_holds (fun K blind => updateNumTokensTotal_holds fun _ => blind r) v written
    obtain ⟨w, read, written, self, -⟩ := contentHash_carries totalled filled
    unfold promoteIfFull
    rw [wp_bind, wp_of_ok read]
    cases hash : chainHash? n ((r :: earlier).map (Heaped.objects
        { v with objects := updateNumTokensTotal r v.objects }).content) with
    | none => exact ⟨⟨unfilled, written⟩, fun _ => self ▸ registered⟩
    | some h =>
      have hashed : ∀ t, Carries n (later ++ r :: earlier)
          (appendedContents (later ++ r :: earlier) u.objects r tokenIds) t →
          chainHash? n ((r :: earlier).map t.objects.content) = none → NoneRegistered s.self t.self := by
        intro t kept unhashed
        rw [Carries.suffix totalled kept, hash] at unhashed
        cases unhashed
      have member : r ∈ later ++ r :: earlier := List.mem_append_right _ List.mem_cons_self
      refine (Preserves.bind (promoteToImmutableBlock_preserves member filled) (fun _ =>
        carries_of_holds fun K blind => setBlockId_holds (fun _ => blind r) _) w written).mono ?_ ?_
      · exact fun _ t kept => ⟨⟨unfilled, kept⟩, hashed t kept⟩
      · exact fun _ t kept => ⟨.inr ⟨unfilled, kept⟩, hashed t kept⟩

/-! ### Runs -/

inductive ChainOp where
  | append (r : BlockRef) (tokenIds : List TokenId)
  | contentHash (r : BlockRef)

def ChainOp.block : ChainOp → BlockRef
  | .append r _ => r
  | .contentHash r => r

def ChainOp.run : ChainOp → Method (Heaped (PrefixCachingBlockAllocator ε)) Unit
  | .append r tokenIds => appendTokenIds r tokenIds
  | .contentHash r => do let _ ← PrefixCachingBlockAllocator.contentHash r

/-- The blocks of a chain, the last first, as they are when they have been made. -/
structure Began (n : ℕ) (chain : List BlockRef) (s : Heaped (PrefixCachingBlockAllocator ε)) : Prop where
  size : s.self.blockSize = n
  pool : s.self.pool.Valid
  held : ∀ x ∈ chain, x ∉ s.self.pool.Fresh
  nodup : chain.Nodup
  linked : s.objects.Linked chain
  unhashed : ∀ x ∈ chain, (s.block x).cachedContentHash = none

/-- An append that would fill its block finds the blocks before it full, and their hash is not the one
that stands for no block. -/
def FillsInOrder (n : ℕ) (chain : List BlockRef) (s : Heaped (PrefixCachingBlockAllocator ε)) (op : ChainOp) :
    Prop :=
  ∀ later r earlier tokenIds, chain = later ++ r :: earlier → op = .append r tokenIds →
    (s.block r).tokenIds.length + tokenIds.length = n → allFull n (earlier.map s.objects.content) = true ∧
      (earlier ≠ [] → chainHash (earlier.map s.objects.content) ≠ PythonHash.noneHash)

/-- The operation returns or raises. -/
def Operates (chain : List BlockRef) (s : Heaped (PrefixCachingBlockAllocator ε)) (op : ChainOp)
    (t : Heaped (PrefixCachingBlockAllocator ε)) : Prop := op.block ∈ chain ∧ t = after op.run s

/-- Every block of the chain has the hash of the chain up to it where that is full, and none elsewhere. -/
def HashedAsChain (n : ℕ) (chain : List BlockRef) (s : Heaped (PrefixCachingBlockAllocator ε)) : Prop :=
  ∀ later r earlier, chain = later ++ r :: earlier →
    ∃ u, contentHash r s = .ok (chainHash? n ((r :: earlier).map s.objects.content)) u

/-- An append that leaves the chain up to its block partly filled registers nothing. -/
def RegistersFull (n : ℕ) (chain : List BlockRef) (s : Heaped (PrefixCachingBlockAllocator ε)) (op : ChainOp)
    (t : Heaped (PrefixCachingBlockAllocator ε)) : Prop :=
  ∀ later r earlier tokenIds, chain = later ++ r :: earlier → op = .append r tokenIds →
    allFull n ((r :: earlier).map t.objects.content) = false → NoneRegistered s.self t.self

omit [Evictor ε] in
theorem Began.carries (began : Began n chain s) : Carries n chain (chain.map s.objects.content) s := by
  refine ⟨⟨began.size, began.pool, began.held, fun _ _ => trivial⟩, began.nodup, began.linked, rfl, ?_⟩
  have remembers : Objects.Remembers n s.objects (chain ++ []) := .of_none began.unhashed trivial
  rwa [List.append_nil] at remembers

omit [Evictor ε] in
theorem appended_inOrder
    (carries : Carries n (later ++ r :: earlier) contents s) (ordered : InOrder n contents)
    (fills : FillsInOrder n (later ++ r :: earlier) s (.append r tokenIds))
    (partly : (s.block r).tokenIds.length ≠ n) :
    InOrder n (appendedContents (later ++ r :: earlier) s.objects r tokenIds) := by
  have nodup := carries.chain.nodup
  have apart : r ∉ later := fun member => (List.nodup_append.mp nodup).2.2 r member r List.mem_cons_self rfl
  have outside : r ∉ earlier := (List.nodup_cons.mp (List.nodup_append.mp nodup).2.1).1
  rw [← carries.chain.contents, List.map_append, List.map_cons] at ordered
  rw [appendedContents, List.map_append, List.map_cons, Objects.map_content_appended apart,
    Objects.map_content_appended outside, Objects.content_appended, if_pos rfl]
  refine ordered.replace partly fun full => ?_
  obtain ⟨before, proper⟩ := fills later r earlier tokenIds rfl rfl (by
    rw [← full, List.length_append]
    rfl)
  exact ⟨before, fun some => proper fun none => some (by rw [none]; rfl)⟩

theorem operates_carries {op : ChainOp} (carries : Carries n chain contents s) (ordered : InOrder n contents)
    (fills : FillsInOrder n chain s op) (step : Operates chain s op t) :
    (∃ contents', Carries n chain contents' t ∧ InOrder n contents') ∧ RegistersFull n chain s op t := by
  obtain ⟨member, rfl⟩ := step
  cases op with
  | contentHash r =>
    refine ⟨⟨contents, ?_, ordered⟩, fun _ _ _ _ _ other => nomatch other⟩
    exact Preserves.after (.bind (contentHash_preserves member ordered) fun _ => .pure _) carries
  | append r tokenIds =>
    obtain ⟨later, earlier, rfl⟩ := List.append_of_mem member
    have inOrder := appended_inOrder carries ordered fills
    have appended := appendTokenIds_carries carries ordered inOrder
    have registers : ∀ t, (chainHash? n ((r :: earlier).map t.objects.content) = none →
        NoneRegistered s.self t.self) → RegistersFull n (later ++ r :: earlier) s (.append r tokenIds) t := by
      intro t nothing later' r' earlier' tokenIds' split same partly
      cases same
      have nodup := List.nodup_append.mp carries.chain.nodup
      have apart : r ∉ later := fun member => nodup.2.2 r member r List.mem_cons_self rfl
      obtain ⟨-, -, rfl⟩ := (List.append_cons_inj_of_notMem apart (List.nodup_cons.mp nodup.2.1).1).mp split
      exact nothing (if_neg (by rw [partly]; exact Bool.false_ne_true))
    cases call : appendTokenIds r tokenIds s with
    | ok u t =>
      obtain ⟨⟨partly, kept⟩, nothing⟩ := appended.ok call
      rw [after_ok (x := ChainOp.run (.append r tokenIds)) call]
      exact ⟨⟨_, kept, inOrder partly⟩, registers t nothing⟩
    | error e t =>
      obtain ⟨kept | ⟨partly, kept⟩, nothing⟩ := appended.error call
      · rw [after_error (x := ChainOp.run (.append r tokenIds)) call]
        exact ⟨⟨_, kept, ordered⟩, registers t nothing⟩
      · rw [after_error (x := ChainOp.run (.append r tokenIds)) call]
        exact ⟨⟨_, kept, inOrder partly⟩, registers t nothing⟩

/-- In a run that fills the blocks in order, every block has the hash of the chain up to it as soon as
that is full, none before, and no block is registered before. -/
theorem run_hashedAsChain {start : Heaped (PrefixCachingBlockAllocator ε)} {h : List ChainOp}
    (began : Began n chain start) (ordered : InOrder n (chain.map start.objects.content))
    (run : Run (fun s op t => Operates chain s op t ∧ FillsInOrder n chain s op) start h s) :
    HashedAsChain n chain s ∧ ∀ op t, Operates chain s op t → FillsInOrder n chain s op →
      RegistersFull n chain s op t := by
  obtain ⟨contents, carries, inOrder⟩ : ∃ contents, Carries n chain contents s ∧ InOrder n contents := by
    refine run.invariant (I := fun _ s => ∃ contents, Carries n chain contents s ∧ InOrder n contents)
      ⟨_, began.carries, ordered⟩ ?_
    rintro _ s op t ⟨contents, carries, ordered⟩ ⟨step, fills⟩
    exact (operates_carries carries ordered fills step).1
  refine ⟨?_, fun op t step fills => (operates_carries carries inOrder fills step).2⟩
  rintro later r earlier rfl
  obtain ⟨u, read, -⟩ := contentHash_carries carries inOrder
  exact ⟨u, read⟩

/-! ### A block filled before the one before it -/

omit [PythonHash] [Evictor ε]

/-- Two empty blocks of size 2, the second linked to the first. -/
def emptyChain : Heaped (PrefixCachingBlockAllocator LRUEvictor) :=
  after (do
    let first ← @allocateMutableBlock LRUEvictor digitsHash _ none none
    let _ ← @allocateMutableBlock LRUEvictor digitsHash _ (some first) none) ⟨∅, init .gpu 2 [0, 1] {}⟩

theorem emptyChain_began : @Began LRUEvictor 2 [⟨.gpu, 1⟩, ⟨.gpu, 0⟩] emptyChain := by
  have pool : emptyChain.self.pool.freeIds.Nodup ∧
      (∀ i ∈ emptyChain.self.pool.freeIds, i < emptyChain.self.pool.poolSize) ∧
      ∀ x ∈ ([⟨.gpu, 1⟩, ⟨.gpu, 0⟩] : List BlockRef),
        x.poolId ∉ emptyChain.self.pool.freeIds ∧ x.poolId < emptyChain.self.pool.poolSize := by
    decide +kernel
  refine ⟨by decide +kernel, ⟨pool.1, pool.2.1⟩, fun x member fresh => ?_, by decide, ?_, by decide +kernel⟩
  · obtain ⟨taken, small⟩ := pool.2.2 x member
    rcases fresh.2 with free | later
    · exact taken free
    · omega
  · exact ⟨by decide +kernel, by decide +kernel, trivial⟩

/-- The second block is filled while the first is not: it has a hash and is registered. -/
def filledAhead : Heaped (PrefixCachingBlockAllocator LRUEvictor) :=
  after (@appendTokenIds LRUEvictor digitsHash _ ⟨.gpu, 1⟩ [2, 3])
    (after (@appendTokenIds LRUEvictor digitsHash _ ⟨.gpu, 0⟩ [1]) emptyChain)

theorem filledAhead_hash :
    result? (@contentHash LRUEvictor digitsHash ⟨.gpu, 1⟩) filledAhead = some (some 15) ∧
      filledAhead.self.cachedBlocks.get? 15 = some 1 ∧
      filledAhead.objects.isFull 2 ⟨.gpu, 0⟩ = false := by
  decide +kernel

theorem filledAhead_hashed : ¬∀ (_ : PythonHash) (n : ℕ) (chain : List BlockRef)
    (start s : Heaped (PrefixCachingBlockAllocator LRUEvictor)) (h : List ChainOp), Began n chain start →
    InOrder n (chain.map start.objects.content) → Run (Operates chain) start h s → HashedAsChain n chain s := by
  intro claim
  let _ := digitsHash
  have right := claim digitsHash 2 [⟨.gpu, 1⟩, ⟨.gpu, 0⟩] emptyChain filledAhead
    [.append ⟨.gpu, 1⟩ [2, 3], .append ⟨.gpu, 0⟩ [1]] emptyChain_began
    ⟨fun full => absurd full (by decide +kernel), fun full => absurd full (by decide +kernel), trivial⟩
    (.call (.call .start ⟨by decide, rfl⟩) ⟨by decide, rfl⟩)
  obtain ⟨u, read⟩ := right [] ⟨.gpu, 1⟩ [⟨.gpu, 0⟩] rfl
  have hash := result?_eq_some.mpr ⟨u, read⟩
  rw [filledAhead_hash.1] at hash
  exact absurd hash (by decide +kernel)

theorem fillsInOrder_of {ε : Type} [PythonHash] {n : ℕ} {s : Heaped (PrefixCachingBlockAllocator ε)}
    {r : BlockRef} (later earlier : List BlockRef) (apart : r ∉ later ++ earlier)
    (before : allFull n (earlier.map s.objects.content) = true)
    (proper : earlier ≠ [] → chainHash (earlier.map s.objects.content) ≠ PythonHash.noneHash) :
    FillsInOrder n (later ++ r :: earlier) s (.append r tokenIds) := by
  intro later' r' earlier' tokenIds' split same _
  cases same
  rw [List.mem_append, not_or] at apart
  obtain ⟨-, -, rfl⟩ := (List.append_cons_inj_of_notMem apart.1 apart.2).mp split
  exact ⟨before, proper⟩

/-- Filled one after the other, the two blocks have the hashes of the chain. -/
theorem run_hashedAsChain_filledInOrder : let _ := digitsHash
    HashedAsChain 2 [⟨.gpu, 1⟩, ⟨.gpu, 0⟩] (after (ChainOp.run (.append ⟨.gpu, 1⟩ [2, 3]))
      (after (ChainOp.run (.append ⟨.gpu, 0⟩ [1, 4])) emptyChain)) := by
  let _ := digitsHash
  refine (run_hashedAsChain (h := [.append ⟨.gpu, 1⟩ [2, 3], .append ⟨.gpu, 0⟩ [1, 4]]) emptyChain_began
    ⟨fun full => absurd full (by decide +kernel), fun full => absurd full (by decide +kernel), trivial⟩
    (.call (.call .start ⟨⟨by decide, rfl⟩, ?_⟩) ⟨⟨by decide, rfl⟩, ?_⟩)).1
  · exact fillsInOrder_of [⟨.gpu, 1⟩] [] (by decide) rfl fun some => absurd rfl some
  · exact fillsInOrder_of [] [⟨.gpu, 0⟩] (by decide) (by decide +kernel)
      fun _ => by decide +kernel

end PrefixCachingBlockAllocator
end Vllm
