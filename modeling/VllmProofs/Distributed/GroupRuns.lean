import VllmProofs.Distributed.StatelessProcessGroup

/-!
Runs of ranks that share a store: the keys of different channels, and what each rank receives.
-/

namespace Vllm.Distributed

/-! ### Keys -/

theorem slash_notMem_repr (n : ℕ) : '/' ∉ n.repr.toList := by
  rw [Nat.toList_repr]
  intro member
  have digit := Nat.isDigit_of_mem_toDigits (by decide) (by decide) member
  exact absurd digit (by decide)

theorem sendKey_toList (dst : Rank) (n : ℕ) :
    (sendKey dst n).toList = "send_to/".toList ++ (dst.repr.toList ++ '/' :: n.repr.toList) := by
  show (toString "send_to/" ++ toString dst ++ toString "/" ++ toString n).toList = _
  simp only [String.toList_append, Nat.toString_eq_repr, List.append_assoc]
  rfl

theorem broadcastKey_toList (src : Rank) (n : ℕ) :
    (broadcastKey src n).toList = "broadcast_from/".toList ++ (src.repr.toList ++ '/' :: n.repr.toList) := by
  show (toString "broadcast_from/" ++ toString src ++ toString "/" ++ toString n).toList = _
  simp only [String.toList_append, Nat.toString_eq_repr, List.append_assoc]
  rfl

variable {n : ℕ}

theorem numbers_inj {r r' n' : ℕ}
    (same : r.repr.toList ++ '/' :: n.repr.toList = r'.repr.toList ++ '/' :: n'.repr.toList) : r = r' ∧ n = n' := by
  obtain ⟨rank, -, number⟩ :=
    (List.append_cons_inj_of_notMem (slash_notMem_repr r) (slash_notMem_repr n)).mp same
  exact ⟨Nat.repr_inj.mp (String.toList_inj.mp rank), Nat.repr_inj.mp (String.toList_inj.mp number)⟩

theorem sendKey_inj {dst dst' : Rank} {n' : ℕ} (same : sendKey dst n = sendKey dst' n') : dst = dst' ∧ n = n' := by
  have chars := congrArg String.toList same
  rw [sendKey_toList, sendKey_toList] at chars
  exact numbers_inj (List.append_cancel_left chars)

theorem broadcastKey_inj {src src' : Rank} {n' : ℕ} (same : broadcastKey src n = broadcastKey src' n') :
    src = src' ∧ n = n' := by
  have chars := congrArg String.toList same
  rw [broadcastKey_toList, broadcastKey_toList] at chars
  exact numbers_inj (List.append_cancel_left chars)

theorem sendKey_ne_broadcastKey (dst src : Rank) (n m : ℕ) : sendKey dst n ≠ broadcastKey src m := by
  intro same
  have chars := congrArg List.head? (congrArg String.toList same)
  rw [sendKey_toList, broadcastKey_toList] at chars
  exact absurd chars (by simp)

/-! ### What each use of the store does -/

section
variable {Obj : Type} {w w' : World Obj} {r : Rank}

theorem record_apply (log : Rank → Rank → List Obj) (r r' : Rank) (obj : Obj) (a b : Rank) :
    record log r r' obj a b = if a = r ∧ b = r' then log r r' ++ [obj] else log a b := by
  unfold record
  rw [Function.update_apply]
  split
  · rename_i first
    rw [Function.update_apply, first]
    split
    · rename_i second
      rw [if_pos ⟨rfl, second⟩]
    · rename_i other
      rw [if_neg fun both => other both.2]
  · rename_i other
    rw [if_neg fun both => other both.1]

variable {log : Rank → Rank → List Obj} {obj : Obj}

theorem getElem?_record {r r' a b : Rank} {obj' : Obj}
    (found : (record log r r' obj a b)[n]? = some obj') :
    (log a b)[n]? = some obj' ∨ a = r ∧ b = r' ∧ n = (log r r').length ∧ obj' = obj := by
  rw [record_apply] at found
  split at found
  · rename_i here
    obtain ⟨rfl, rfl⟩ := here
    rcases Nat.lt_trichotomy n (log a b).length with before | last | after
    · rw [List.getElem?_append_left before] at found
      exact Or.inl found
    · rw [last, List.getElem?_concat_length, Option.some.injEq] at found
      exact Or.inr ⟨rfl, rfl, last, found.symm⟩
    · rw [List.getElem?_eq_none (by rw [List.length_append, List.length_singleton]; omega)] at found
      cases found
  · exact Or.inl found

theorem prefix_record (log : Rank → Rank → List Obj) (r r' : Rank) (obj : Obj) (a b : Rank) :
    log a b <+: record log r r' obj a b := by
  rw [record_apply]
  split
  · rename_i here
    rw [here.1, here.2]
    exact List.prefix_append _ _
  · exact List.prefix_refl _

theorem length_record (log : Rank → Rank → List Obj) (r r' : Rank) (obj : Obj) (a b : Rank) :
    (record log r r' obj a b).length = if a = r ∧ b = r' then (log r r').length + 1 else (log a b).length := by
  rw [record_apply]
  split
  · rw [List.length_append, List.length_singleton]
  · rfl

namespace World

theorem record_front {sent : Rank → Rank → List Obj} {r r' : Rank}
    (before : ∀ a b, log a b <+: sent b a) (next : (sent r' r)[(log r r').length]? = some obj) (a b : Rank) :
    record log r r' obj a b <+: sent b a := by
  rw [record_apply]
  split
  · rename_i here
    rw [here.1, here.2]
    obtain ⟨rest, split_⟩ := before r r'
    rw [← split_, List.getElem?_append_right (le_refl _), Nat.sub_self] at next
    cases rest with
    | nil => cases next
    | cons first rest =>
      cases next
      exact ⟨rest, by rw [← split_, List.append_assoc, List.singleton_append]⟩
  · exact before a b

structure Tallies (w : World Obj) (r : Rank) (g : StatelessProcessGroup) : Prop where
  rank : g.rank = r
  worldSize : g.worldSize = w.worldSize
  sent : ∀ dst, g.sendDstCounter dst = (w.sent r dst).length
  received : ∀ src, g.recvSrcCounter src = (w.received r src).length
  broadcast : g.broadcastSendCounter = (w.broadcast r).length
  broadcastReceived : ∀ src, g.broadcastRecvSrcCounter src = (w.broadcastReceived r src).length

/-- The counters are right, and what is in the store was sent. -/
structure Counted (w : World Obj) : Prop where
  tallies : ∀ r, w.Tallies r (w.groups r)
  members : ∀ r, w.worldSize ≤ r → w.pending r = [] ∧ ∀ dst, w.sent r dst = []
  stored : ∀ dst n obj, w.store.get? (sendKey dst n) = some obj → ∃ src, (w.sent src dst)[n]? = some obj
  broadcastStored : ∀ src n obj, w.store.get? (broadcastKey src n) = some obj → (w.broadcast src)[n]? = some obj

theorem counted_start (worldSize : ℕ) : (start worldSize : World Obj).Counted := by
  constructor
  · intro r
    constructor
    all_goals intros
    all_goals rfl
  · exact fun _ _ => ⟨rfl, fun _ => rfl⟩
  · intro dst n obj found
    cases found
  · intro src n obj found
    cases found

variable {src dst : Rank}

theorem OnlySource.sent (only : w.OnlySource r dst) (counted : w.Counted) (other : src ≠ r) : w.sent src dst = [] := by
  rcases Nat.lt_or_ge src w.worldSize with member | outside
  · have none := only src member other
    rw [(counted.tallies src).sent] at none
    exact List.eq_nil_of_length_eq_zero none
  · exact (counted.members src outside).2 dst

theorem count_record {counter : Rank → ℕ}
    (before : ∀ b, counter b = (log r b).length) (r' b : Rank) :
    Function.update counter r' (counter r' + 1) b = (record log r r' obj r b).length := by
  rw [Function.update_apply, length_record]
  split
  · rename_i here
    rw [if_pos ⟨rfl, here⟩, before]
  · rename_i other
    rw [if_neg fun both => other both.2]
    exact before b

theorem record_other {r' : Rank} {a : Rank} (other : a ≠ r) (b : Rank) :
    record log r r' obj a b = log a b := by
  rw [record_apply, if_neg fun both => other both.1]

variable {g : StatelessProcessGroup} {store : Dict String Obj} {g' : StatelessProcessGroup}

theorem sendObj_some {store' : Dict String Obj}
    (sends : g.sendObj store obj dst = some (g', store')) : dst < g.worldSize ∧
      g' = { g with sendDstCounter := Function.update g.sendDstCounter dst (g.sendDstCounter dst + 1) } ∧
      store' = store.insert (sendKey dst (g.sendDstCounter dst)) obj := by
  unfold StatelessProcessGroup.sendObj at sends
  split at sends
  · rename_i member
    cases sends
    exact ⟨member, rfl, rfl⟩
  · cases sends

theorem recvObj_some (receives : g.recvObj store src = some (g', obj)) :
    g' = { g with recvSrcCounter := Function.update g.recvSrcCounter src (g.recvSrcCounter src + 1) } ∧
      store.get? (sendKey g.rank (g.recvSrcCounter src)) = some obj := by
  unfold StatelessProcessGroup.recvObj at receives
  split at receives
  · obtain ⟨found, there, done⟩ := Option.bind_eq_some_iff.mp receives
    cases done
    exact ⟨rfl, there⟩
  · cases receives

theorem broadcastRecv_some (receives : g.broadcastRecv store src = some (g', obj)) :
    g' = { g with broadcastRecvSrcCounter :=
      Function.update g.broadcastRecvSrcCounter src (g.broadcastRecvSrcCounter src + 1) } ∧
      store.get? (broadcastKey src (g.broadcastRecvSrcCounter src)) = some obj := by
  unfold StatelessProcessGroup.broadcastRecv at receives
  split at receives
  · obtain ⟨found, there, done⟩ := Option.bind_eq_some_iff.mp receives
    cases done
    exact ⟨rfl, there⟩
  · cases receives

/-! ### The steps keep the counts -/

theorem tallies_update (counted : w.Counted)
    (groups : w'.groups = Function.update w.groups r g) (worldSize : w'.worldSize = w.worldSize) (new : w'.Tallies r g)
    (sent : ∀ a ≠ r, w'.sent a = w.sent a) (received : ∀ a ≠ r, w'.received a = w.received a)
    (broadcast : ∀ a ≠ r, w'.broadcast a = w.broadcast a)
    (broadcastReceived : ∀ a ≠ r, w'.broadcastReceived a = w.broadcastReceived a) (a : Rank) :
    w'.Tallies a (w'.groups a) := by
  rw [groups, Function.update_apply]
  split
  · rename_i here
    rw [here]
    exact new
  · rename_i other
    have before := counted.tallies a
    constructor
    · exact before.rank
    · rw [worldSize]
      exact before.worldSize
    · rw [sent a other]
      exact before.sent
    · rw [received a other]
      exact before.received
    · rw [broadcast a other]
      exact before.broadcast
    · rw [broadcastReceived a other]
      exact before.broadcastReceived

theorem getElem?_of_longer {xs ys : List Obj} (shorter : xs <+: ys) (found : xs[n]? = some obj) :
    ys[n]? = some obj := by
  obtain ⟨rest, rfl⟩ := shorter
  rw [List.getElem?_append_left (List.getElem?_eq_some_iff.mp found).1]
  exact found

theorem Counted.send (counted : w.Counted)
    (member : r < w.worldSize) (sends : (w.groups r).sendObj w.store obj dst = some (g, store)) :
    Counted { w with groups := Function.update w.groups r g, store, sent := record w.sent r dst obj } := by
  obtain ⟨-, rfl, rfl⟩ := sendObj_some sends
  have own := counted.tallies r
  constructor
  · apply tallies_update counted
    · rfl
    · rfl
    · exact ⟨own.rank, own.worldSize, count_record own.sent dst, own.received, own.broadcast, own.broadcastReceived⟩
    · exact fun a other => funext (record_other other)
    · exact fun _ _ => rfl
    · exact fun _ _ => rfl
    · exact fun _ _ => rfl
  · intro a outside
    have other : a ≠ r := by
      rintro rfl
      exact absurd member (Nat.not_lt.mpr outside)
    refine ⟨(counted.members a outside).1, fun b => ?_⟩
    show record w.sent r dst obj a b = []
    rw [record_other other]
    exact (counted.members a outside).2 b
  · intro b n obj' found
    change (w.store.insert _ obj).get? _ = _ at found
    rw [Dict.get?_insert] at found
    split at found
    · rename_i same
      cases found
      obtain ⟨rfl, rfl⟩ := sendKey_inj same
      refine ⟨r, ?_⟩
      show (record w.sent r _ obj r _)[_]? = _
      rw [own.sent, record_apply, if_pos ⟨rfl, rfl⟩, List.getElem?_concat_length]
    · obtain ⟨a, there⟩ := counted.stored b n obj' found
      exact ⟨a, getElem?_of_longer (prefix_record w.sent r dst obj a b) there⟩
  · intro b n obj' found
    change (w.store.insert _ obj).get? _ = _ at found
    rw [Dict.get?_insert_ne (sendKey_ne_broadcastKey _ _ _ _).symm] at found
    exact counted.broadcastStored b n obj' found

theorem Counted.recv (counted : w.Counted)
    (receives : (w.groups r).recvObj w.store src = some (g, obj)) :
    Counted { w with groups := Function.update w.groups r g, received := record w.received r src obj } := by
  obtain ⟨rfl, -⟩ := recvObj_some receives
  have own := counted.tallies r
  refine ⟨?_, counted.members, counted.stored, counted.broadcastStored⟩
  apply tallies_update counted
  · rfl
  · rfl
  · exact ⟨own.rank, own.worldSize, own.sent, count_record own.received src, own.broadcast, own.broadcastReceived⟩
  · exact fun _ _ => rfl
  · exact fun a other => funext (record_other other)
  · exact fun _ _ => rfl
  · exact fun _ _ => rfl

theorem Counted.broadcastRecv (counted : w.Counted)
    (receives : (w.groups r).broadcastRecv w.store src = some (g, obj)) :
    Counted { w with
      groups := Function.update w.groups r g, broadcastReceived := record w.broadcastReceived r src obj } := by
  obtain ⟨rfl, -⟩ := broadcastRecv_some receives
  have own := counted.tallies r
  refine ⟨?_, counted.members, counted.stored, counted.broadcastStored⟩
  apply tallies_update counted
  · rfl
  · rfl
  · exact ⟨own.rank, own.worldSize, own.sent, own.received, own.broadcast, count_record own.broadcastReceived src⟩
  · exact fun _ _ => rfl
  · exact fun _ _ => rfl
  · exact fun _ _ => rfl
  · exact fun a other => funext (record_other other)

theorem Counted.broadcastSend (counted : w.Counted) (obj : Obj) : Counted { w with
      groups := Function.update w.groups r ((w.groups r).broadcastSend w.store obj).1
      store := ((w.groups r).broadcastSend w.store obj).2
      broadcast := Function.update w.broadcast r (w.broadcast r ++ [obj]) } := by
  have own := counted.tallies r
  constructor
  · apply tallies_update counted
    · rfl
    · rfl
    · refine ⟨own.rank, own.worldSize, own.sent, own.received, ?_, own.broadcastReceived⟩
      show (w.groups r).broadcastSendCounter + 1 = (Function.update w.broadcast r (w.broadcast r ++ [obj]) r).length
      rw [Function.update_self, List.length_append, List.length_singleton, own.broadcast]
    · exact fun _ _ => rfl
    · exact fun _ _ => rfl
    · exact fun a other => Function.update_of_ne other _ _
    · exact fun _ _ => rfl
  · exact counted.members
  · intro b n obj' found
    change (w.store.insert _ obj).get? _ = _ at found
    rw [Dict.get?_insert_ne (sendKey_ne_broadcastKey _ _ _ _)] at found
    exact counted.stored b n obj' found
  · intro b n obj' found
    change (w.store.insert _ obj).get? _ = _ at found
    show (Function.update w.broadcast r (w.broadcast r ++ [obj]) b)[n]? = _
    rw [Dict.get?_insert] at found
    split at found
    · rename_i same
      cases found
      obtain ⟨rfl, rfl⟩ := broadcastKey_inj same
      rw [own.rank, Function.update_self, own.broadcast, List.getElem?_concat_length]
    · have there := counted.broadcastStored b n obj' found
      rw [Function.update_apply]
      split
      · rename_i here
        rw [here] at there
        exact getElem?_of_longer (List.prefix_append _ _) there
      · exact there

/-- What a use of the store does. -/
inductive Uses (w : World Obj) (r : Rank) : StoreCall Obj → World Obj → Prop
  | send {g : StatelessProcessGroup} {store : Dict String Obj} {obj : Obj} {dst : Rank}
      (sends : (w.groups r).sendObj w.store obj dst = some (g, store)) : Uses w r (.sendObj obj dst)
      { w with groups := Function.update w.groups r g, store, sent := record w.sent r dst obj }
  | recv {g : StatelessProcessGroup} {obj : Obj} {src : Rank}
      (receives : (w.groups r).recvObj w.store src = some (g, obj)) : Uses w r (.recvObj src)
      { w with groups := Function.update w.groups r g, received := record w.received r src obj }
  | broadcastSend (obj : Obj) : Uses w r (.broadcastObj obj r)
      { w with
        groups := Function.update w.groups r ((w.groups r).broadcastSend w.store obj).1
        store := ((w.groups r).broadcastSend w.store obj).2
        broadcast := Function.update w.broadcast r (w.broadcast r ++ [obj]) }
  | broadcastRecv {g : StatelessProcessGroup} {none obj : Obj} {src : Rank}
      (receives : (w.groups r).broadcastRecv w.store src = some (g, obj)) : Uses w r (.broadcastObj none src)
      { w with
        groups := Function.update w.groups r g, broadcastReceived := record w.broadcastReceived r src obj }

theorem uses_of_storeCall {next : StoreCall Obj} (called : w.storeCall r next = some w') : Uses w r next w' := by
  cases next with
  | sendObj obj dst =>
    obtain ⟨_, sends, result⟩ := Option.bind_eq_some_iff.mp called
    cases result
    exact .send sends
  | recvObj src =>
    obtain ⟨_, receives, result⟩ := Option.bind_eq_some_iff.mp called
    cases result
    exact .recv receives
  | broadcastObj obj src =>
    simp only [storeCall] at called
    split at called
    · rename_i own
      cases called
      rw [← own]
      exact .broadcastSend obj
    · obtain ⟨_, receives, result⟩ := Option.bind_eq_some_iff.mp called
      cases result
      exact .broadcastRecv receives

theorem Counted.uses {next : StoreCall Obj} (counted : w.Counted) (member : r < w.worldSize) (uses : Uses w r next w') :
    w'.Counted ∧ w'.worldSize = w.worldSize := by
  cases uses with
  | send sends => exact ⟨counted.send member sends, rfl⟩
  | recv receives => exact ⟨counted.recv receives, rfl⟩
  | broadcastSend obj => exact ⟨counted.broadcastSend obj, rfl⟩
  | broadcastRecv receives => exact ⟨counted.broadcastRecv receives, rfl⟩

theorem Counted.setPending (counted : w.Counted) (member : r < w.worldSize) (calls : List (StoreCall Obj)) :
    Counted { w with pending := Function.update w.pending r calls } := by
  have tallies : ∀ a, Tallies { w with pending := Function.update w.pending r calls } a (w.groups a) := fun a =>
    have before := counted.tallies a
    ⟨before.rank, before.worldSize, before.sent, before.received, before.broadcast, before.broadcastReceived⟩
  refine ⟨tallies, ?_, counted.stored, counted.broadcastStored⟩
  intro a outside
  have other : a ≠ r := by
    rintro rfl
    exact absurd member (Nat.not_lt.mpr outside)
  refine ⟨?_, (counted.members a outside).2⟩
  show Function.update w.pending r calls a = []
  rw [Function.update_of_ne other]
  exact (counted.members a outside).1

theorem Counted.member (counted : w.Counted) (busy : w.pending r ≠ []) : r < w.worldSize := by
  rcases Nat.lt_or_ge r w.worldSize with member | outside
  · exact member
  · exact absurd (counted.members r outside).1 busy

/-! ### What is received -/

theorem delivers_start (worldSize : ℕ) : (start worldSize : World Obj).Delivers where
  received _ _ := List.prefix_refl _
  broadcastReceived _ _ := List.prefix_refl _
  kept _ _ _ _ found := by cases found
  broadcastKept _ _ _ found := by cases found

/-- The key of the next object from `r` to `dst` is new. -/
theorem Delivers.send (delivers : w.Delivers)
    (counted : w.Counted) (only : w.OnlySource r dst) (sends : (w.groups r).sendObj w.store obj dst = some (g, store)) :
    Delivers { w with groups := Function.update w.groups r g, store, sent := record w.sent r dst obj } := by
  obtain ⟨-, rfl, rfl⟩ := sendObj_some sends
  have own := (counted.tallies r).sent dst
  constructor
  · intro a b
    exact (delivers.received a b).trans (prefix_record w.sent r dst obj b a)
  · exact delivers.broadcastReceived
  · intro a b n obj' found
    show (w.store.insert _ obj).get? _ = _
    rcases getElem?_record found with old | ⟨rfl, rfl, rfl, rfl⟩
    · rw [Dict.get?_insert_ne]
      · exact delivers.kept a b n obj' old
      · intro same
        obtain ⟨rfl, rfl⟩ := sendKey_inj same
        rw [own] at old
        rcases eq_or_ne a r with rfl | other
        · rw [List.getElem?_eq_none (le_refl _)] at old
          cases old
        · rw [only.sent counted other] at old
          cases old
    · rw [own, Dict.get?_insert_self]
  · intro b n obj' found
    show (w.store.insert _ obj).get? _ = _
    rw [Dict.get?_insert_ne (sendKey_ne_broadcastKey _ _ _ _).symm]
    exact delivers.broadcastKept b n obj' found

theorem Delivers.recv (delivers : w.Delivers) (counted : w.Counted)
    (only : w.OnlySource src r) (receives : (w.groups r).recvObj w.store src = some (g, obj)) :
    Delivers { w with groups := Function.update w.groups r g, received := record w.received r src obj } := by
  obtain ⟨-, there⟩ := recvObj_some receives
  refine ⟨record_front delivers.received ?_, delivers.broadcastReceived, delivers.kept, delivers.broadcastKept⟩
  rw [(counted.tallies r).rank, (counted.tallies r).received] at there
  obtain ⟨a, sent⟩ := counted.stored r _ obj there
  rcases eq_or_ne a src with rfl | other
  · exact sent
  · rw [only.sent counted other] at sent
    cases sent

theorem Delivers.broadcastRecv (delivers : w.Delivers) (counted : w.Counted)
    (receives : (w.groups r).broadcastRecv w.store src = some (g, obj)) :
    Delivers { w with
      groups := Function.update w.groups r g, broadcastReceived := record w.broadcastReceived r src obj } := by
  obtain ⟨-, there⟩ := broadcastRecv_some receives
  refine ⟨delivers.received, ?_, delivers.kept, delivers.broadcastKept⟩
  apply @record_front _ _ _ fun a _ => w.broadcast a
  · exact delivers.broadcastReceived
  · rw [(counted.tallies r).broadcastReceived] at there
    exact counted.broadcastStored src _ obj there

theorem Delivers.broadcastSend (delivers : w.Delivers) (counted : w.Counted) (obj : Obj) :
    Delivers { w with
      groups := Function.update w.groups r ((w.groups r).broadcastSend w.store obj).1
      store := ((w.groups r).broadcastSend w.store obj).2
      broadcast := Function.update w.broadcast r (w.broadcast r ++ [obj]) } := by
  have own := counted.tallies r
  have longer : ∀ b, w.broadcast b <+: Function.update w.broadcast r (w.broadcast r ++ [obj]) b := by
    intro b
    rw [Function.update_apply]
    split
    · rename_i here
      rw [here]
      exact List.prefix_append _ _
    · exact List.prefix_refl _
  constructor
  · exact delivers.received
  · exact fun a b => (delivers.broadcastReceived a b).trans (longer b)
  · intro a b n obj' found
    show (w.store.insert _ obj).get? _ = _
    rw [Dict.get?_insert_ne (sendKey_ne_broadcastKey _ _ _ _)]
    exact delivers.kept a b n obj' found
  · intro b n obj' found
    show (w.store.insert _ obj).get? _ = _
    rw [Dict.get?_insert, own.rank, own.broadcast]
    rcases Nat.lt_or_ge n (w.broadcast b).length with old | new
    · obtain ⟨first, inside⟩ : ∃ first, (w.broadcast b)[n]? = some first := ⟨_, List.getElem?_eq_getElem old⟩
      have same := (getElem?_of_longer (longer b) inside).symm.trans found
      cases same
      rw [if_neg, delivers.broadcastKept b n obj' inside]
      intro same
      obtain ⟨rfl, rfl⟩ := broadcastKey_inj same
      exact absurd old (lt_irrefl _)
    · change (Function.update w.broadcast r (w.broadcast r ++ [obj]) b)[n]? = _ at found
      rw [Function.update_apply] at found
      split at found
      · rename_i here
        rw [here] at new ⊢
        rw [List.getElem?_append_right new, List.getElem?_singleton] at found
        split at found
        · rename_i last
          rw [if_pos (by rw [show n = (w.broadcast r).length by omega])]
          exact found
        · cases found
      · rw [List.getElem?_eq_none new] at found
        cases found

theorem Delivers.step {event : Event Obj} (delivers : w.Delivers) (counted : w.Counted) (unshared : w.Unshared event)
    (stepped : w.step event = some w') : w'.Counted ∧ w'.Delivers := by
  cases event with
  | call rank groupCall =>
    simp only [World.step] at stepped
    split at stepped
    · rename_i member
      cases stepped
      exact ⟨counted.setPending member.1 _, ⟨delivers.received, delivers.broadcastReceived, delivers.kept,
        delivers.broadcastKept⟩⟩
    · cases stepped
  | proceed rank =>
    simp only [World.step] at stepped
    split at stepped
    · cases stepped
    · rename_i next rest calls
      have member : rank < w.worldSize := counted.member (by rw [calls]; exact List.cons_ne_nil _ _)
      obtain ⟨w₁, called, result⟩ := Option.bind_eq_some_iff.mp stepped
      cases result
      have uses := uses_of_storeCall called
      obtain ⟨after, size⟩ := counted.uses member uses
      simp only [Unshared, calls, List.head?_cons] at unshared
      have kept : w₁.Delivers := by
        cases uses with
        | send sends => exact delivers.send counted unshared sends
        | recv receives => exact delivers.recv counted unshared receives
        | broadcastSend obj => exact delivers.broadcastSend counted obj
        | broadcastRecv receives => exact delivers.broadcastRecv counted receives
      exact ⟨after.setPending (by rw [size]; exact member) rest, ⟨kept.received, kept.broadcastReceived, kept.kept,
        kept.broadcastKept⟩⟩

/-- When no key is used by two ranks, each rank receives what was sent to it, in order, and nothing is
overwritten. -/
theorem delivers_of_unshared {worldSize : ℕ} {history : List (Event Obj)}
    (run : GuardedRun Unshared step (start worldSize) history w) :
    w.Delivers := by
  have both : w.Counted ∧ w.Delivers := by
    apply Run.invariant (I := fun _ w => w.Counted ∧ w.Delivers) _ _ run
    · exact ⟨counted_start worldSize, delivers_start worldSize⟩
    · rintro - w event w' ⟨counted, delivers⟩ ⟨unshared, stepped⟩
      exact delivers.step counted unshared stepped
  exact both.2

/-- Three ranks gather an object of each, and pass one on to the next. -/
def gatherAndPass : List (Event ℕ) := List.reverse
  [.call 0 (.allGatherObj 4), .call 1 (.allGatherObj 5), .call 2 (.allGatherObj 6),
    .proceed 0, .proceed 1, .proceed 1, .proceed 2, .proceed 2, .proceed 2, .proceed 1, .proceed 0, .proceed 0,
    .call 0 (.sendObj 7 1), .call 1 (.sendObj 8 2), .call 2 (.sendObj 9 0), .proceed 0, .proceed 1, .proceed 2,
    .call 0 (.recvObj 2), .call 1 (.recvObj 0), .call 2 (.recvObj 1), .proceed 0, .proceed 1, .proceed 2]

theorem delivers_of_unshared_gatherAndPass : ∃ w : World ℕ, GuardedRun Unshared step (start 3) gatherAndPass w ∧
    (w.received 1 0 = [7] ∧ w.received 2 1 = [8] ∧ w.received 0 2 = [9] ∧
      w.broadcastReceived 0 2 = [6] ∧ w.broadcastReceived 2 1 = [5]) ∧ w.Delivers := by
  have ran : ∃ w : World ℕ, GuardedRun Unshared step (start 3) gatherAndPass w ∧
      (w.received 1 0 = [7] ∧ w.received 2 1 = [8] ∧ w.received 0 2 = [9] ∧
        w.broadcastReceived 0 2 = [6] ∧ w.broadcastReceived 2 1 = [5]) := by
    apply GuardedRun.exists_of_execute
    decide +kernel
  obtain ⟨w, run, received⟩ := ran
  exact ⟨w, run, received, delivers_of_unshared run⟩

/-- Ranks 0 and 1 send to rank 2, which then takes one object from rank 0. -/
def twoSenders : List (Event ℕ) :=
  [.proceed 2, .call 2 (.recvObj 0), .proceed 1, .call 1 (.sendObj 8 2), .proceed 0, .call 0 (.sendObj 7 2)]

/-- The object of rank 1 has taken the place of that of rank 0. -/
theorem twoSenders_mixes : ∃ w : World ℕ, Reaches 3 twoSenders w ∧
    (w.received 2 0 = [8] ∧ w.sent 0 2 = [7]) ∧ ¬w.Delivers := by
  have ran : ∃ w : World ℕ, Reaches 3 twoSenders w ∧ w.received 2 0 = [8] ∧ w.sent 0 2 = [7] := by
    apply Run.exists_of_execute
    decide +kernel
  obtain ⟨w, reached, taken, sent⟩ := ran
  refine ⟨w, reached, ⟨taken, sent⟩, fun delivers => ?_⟩
  have prefixes := delivers.received 2 0
  rw [taken, sent] at prefixes
  exact absurd prefixes (by decide)

end World
end
end Vllm.Distributed
