/-
FabricPeerExt.Blkstorage.IteratorTheorems — what the iterator returns, in every interleaving
(`iterator_delivers`).

On an empty chain an iterator from block 0 does not wait but reads (`iterator_emptyChain`).
-/
import FabricPeerExt.Blkstorage.Contents
import FabricPeerExt.Blkstorage.Iterator

namespace FabricPeerExt.Blkstorage

open Lib
open PvtData (GoString Err maxUint64)

section
variable {x : Externals}

/-! ## §1 Numbers -/

variable {a : Adding} {db : CouchDB} {n : UInt64}

theorem toNat_add_one (h : n ≠ maxUint64) : (n + 1).toNat = n.toNat + 1 := by
  have hlt := n.toNat_lt
  have hne : n.toNat ≠ 2 ^ 64 - 1 := fun hc => h (UInt64.toNat_inj.mp hc)
  rw [UInt64.toNat_add, UInt64.toNat_one]
  omega

def NoWrap (blocks : List Block) : Prop := ∀ b ∈ blocks.dropLast, b.header.number ≠ maxUint64

variable {blocks : List Block} {b : Block} {c : BlockCache}

theorem Linked.toNat_number (h : Linked x blocks) (hmax : NoWrap blocks) :
    ∀ {i : Nat} {a b : Block}, blocks[0]? = some a → blocks[i]? = some b →
      b.header.number.toNat = a.header.number.toNat + i
  | 0, a, b, ha, hb => by
    obtain rfl := Option.some.inj (ha.symm.trans hb)
    rfl
  | i + 1, a, b, ha, hb => by
    obtain ⟨hlt, hb'⟩ := List.getElem?_eq_some_iff.mp hb
    have hprev : blocks[i]? = some blocks[i] := List.getElem?_eq_getElem (by omega)
    have hstep := List.isChain_iff_getElem.mp h i (by omega)
    have hdrop : blocks[i] ∈ blocks.dropLast := by
      rw [List.mem_iff_getElem?]
      refine ⟨i, ?_⟩
      rw [List.getElem?_dropLast, if_pos (by omega), hprev]
    rw [← hb', hstep.1, toNat_add_one (hmax _ hdrop), h.toNat_number hmax ha hprev,
      Nat.add_assoc]

theorem Linked.eq_of_number_noWrap (h : Linked x blocks)
    (hmax : NoWrap blocks) {b c : Block} (hb : b ∈ blocks) (hc : c ∈ blocks)
    (heq : b.header.number = c.header.number) : b = c := by
  obtain ⟨i, hi⟩ := List.mem_iff_getElem?.mp hb
  obtain ⟨j, hj⟩ := List.mem_iff_getElem?.mp hc
  obtain ⟨hlt, _⟩ := List.getElem?_eq_some_iff.mp hi
  have ha : blocks[0]? = some blocks[0] := List.getElem?_eq_getElem (by omega)
  have hnat := congrArg UInt64.toNat heq
  rw [h.toNat_number hmax ha hi, h.toNat_number hmax ha hj] at hnat
  obtain rfl : i = j := Nat.add_left_cancel hnat
  exact Option.some.inj (hi.symm.trans hj)

/-- The block behind a chain has a greater number than all of its blocks. -/
theorem Linked.number_lt_next {b c : Block} (h : Linked x (blocks ++ [b]))
    (hmax : ∀ c ∈ blocks, c.header.number ≠ maxUint64) (hc : c ∈ blocks) :
    c.header.number < b.header.number := by
  have hwrap : NoWrap (blocks ++ [b]) := by
    rw [NoWrap, List.dropLast_concat]
    exact hmax
  obtain ⟨i, hi⟩ := List.mem_iff_getElem?.mp hc
  obtain ⟨hlt, _⟩ := List.getElem?_eq_some_iff.mp hi
  have hi' : (blocks ++ [b])[i]? = some c := by rw [List.getElem?_append_left hlt, hi]
  have hb : (blocks ++ [b])[blocks.length]? = some b := List.getElem?_concat_length
  have ha : (blocks ++ [b])[0]? = some (blocks ++ [b])[0] := List.getElem?_eq_getElem (by simp)
  rw [UInt64.lt_iff_toNat_lt, h.toNat_number hwrap ha hi', h.toNat_number hwrap ha hb]
  omega

/-- A number between the first and the last one is that of a block. -/
theorem Linked.exists_number {first last : Block}
    (h : Linked x blocks) (hmax : NoWrap blocks) (hfirst : blocks.head? = some first)
    (hlast : blocks.getLast? = some last) (hle : first.header.number ≤ n)
    (hge : n ≤ last.header.number) : ∃ b ∈ blocks, b.header.number = n := by
  have h0 : blocks[0]? = some first := by rw [← List.head?_eq_getElem?, hfirst]
  rw [List.getLast?_eq_getElem?] at hlast
  obtain ⟨hlt, _⟩ := List.getElem?_eq_some_iff.mp hlast
  have hlastNum := h.toNat_number hmax h0 hlast
  rw [UInt64.le_iff_toNat_le] at hle hge
  have hi : n.toNat - first.header.number.toNat < blocks.length := by omega
  obtain ⟨b, hb⟩ : ∃ b, blocks[n.toNat - first.header.number.toNat]? = some b :=
    ⟨_, List.getElem?_eq_getElem hi⟩
  refine ⟨b, List.mem_of_getElem? hb, UInt64.toNat_inj.mp ?_⟩
  rw [h.toNat_number hmax h0 hb]
  omega

theorem Linked.number_le_last {last b : Block} (h : Linked x blocks)
    (hmax : NoWrap blocks) (hlast : blocks.getLast? = some last) (hb : b ∈ blocks) :
    b.header.number ≤ last.header.number := by
  rw [List.getLast?_eq_getElem?] at hlast
  obtain ⟨i, hi⟩ := List.mem_iff_getElem?.mp hb
  obtain ⟨hlt, _⟩ := List.getElem?_eq_some_iff.mp hi
  have h0 : blocks[0]? = some blocks[0] := List.getElem?_eq_getElem (by omega)
  rw [UInt64.le_iff_toNat_le, h.toNat_number hmax h0 hi, h.toNat_number hmax h0 hlast]
  omega

/-! ## §2 Stored blocks -/

variable (x) in
def Stored (db : CouchDB) (blocks : List Block) : Prop :=
  ∀ b ∈ blocks, ∃ body, blockToCouchDoc x b = .ok body ∧
    readDoc db (blockNumberToKey b.header.number) = some body

theorem Stored.frame {db' : CouchDB} (h : Stored x db blocks)
    (hsame : ∀ b ∈ blocks, readDoc db' (blockNumberToKey b.header.number) =
      readDoc db (blockNumberToKey b.header.number)) : Stored x db' blocks := by
  intro b hb
  obtain ⟨body, hbody, hread⟩ := h b hb
  exact ⟨body, hbody, (hsame b hb).trans hread⟩

theorem Stored.concat {body : Body}
    (h : Stored x db blocks) (hbody : blockToCouchDoc x b = .ok body)
    (hread : readDoc db (blockNumberToKey b.header.number) = some body) :
    Stored x db (blocks ++ [b]) := by
  intro c hc
  rcases List.mem_append.mp hc with hc | hc
  · exact h c hc
  · obtain rfl := List.mem_singleton.mp hc
    exact ⟨body, hbody, hread⟩

theorem Stored.saveCheckpoint (h : Stored x db blocks)
    (body : Body) : Stored x (saveDoc db blkMgrInfoKey body) blocks :=
  h.frame fun b _ => by
    rw [readDoc_saveDoc, if_neg (blockNumberToKey_ne_blkMgrInfoKey b.header.number)]

/-- No block of a chain has the key of the next one. -/
theorem Linked.key_ne_next {b c : Block} (h : Linked x (blocks ++ [b]))
    (hmax : ∀ c ∈ blocks, c.header.number ≠ maxUint64) (hc : c ∈ blocks) :
    blockNumberToKey c.header.number ≠ blockNumberToKey b.header.number := by
  intro heq
  have hlt := h.number_lt_next hmax hc
  rw [blockNumberToKey_injective heq] at hlt
  exact UInt64.lt_irrefl _ hlt

variable (x) in
def KeepsStored (st : History) : Prop :=
  Consistent x st ∧ ((∀ b ∈ st.accepted, b.header.number ≠ maxUint64) →
    Stored x st.sys.db.blockStore st.accepted)

theorem KeepsStored.step {st : History} (h : KeepsStored x st) (op : Op) :
    KeepsStored x (op.step x st) := by
  refine ⟨h.1.step op, ?_⟩
  cases op with
  | reopen committer cfg fault =>
    cases fault with
    | some cause =>
      simp only [Op.step, newCDBBlockStore_fault x h.1.readable cfg cause]
      exact h.2
    | none =>
      obtain ⟨s, hs, _, _, _, hdb⟩ := newCDBBlockStore_of_readable x h.1.readable cfg
      simp only [Op.step, hs]
      intro hmax
      show Stored x s.db.blockStore st.accepted
      rw [hdb]
      exact (h.2 hmax).saveCheckpoint _
  | addBlock b fault =>
    cases hs : st.sys with
    | down db => simpa only [Op.step, hs] using h.2
    | up committer s =>
      have hdb : st.sys.db = s.db := by rw [hs]; rfl
      cases committer with
      | false =>
        simp only [Op.step, hs, CdbBlockStore.addBlock, Bool.false_eq_true, if_false]
        rw [← hs]
        exact h.2
      | true =>
        have hcp : s.cpInfo = chainCheckpoint x st.accepted :=
          (Prod.mk.inj (h.1.memory true s hs).1).1
        have hspec := addBlock_spec x fault s b
        simp only [Op.step, hs]
        rcases hadd : s.addBlock x true fault b with ⟨s', r⟩
        rw [hadd] at hspec
        cases hspec with
        | rejected e hv =>
          have hstored := h.2
          rw [hdb] at hstored
          exact hstored
        | failed _ e hv hsame hframe =>
          intro hmax
          have hnext := h.1.linked.concat x hcp hv
          refine (h.2 hmax).frame fun c hc => ?_
          rw [hdb]
          exact hframe _ (hnext.key_ne_next hmax hc)
        | accepted _ body hv hnew hbody hdoc =>
          intro hmax
          have hmax' : ∀ c ∈ st.accepted, c.header.number ≠ maxUint64 :=
            fun c hc => hmax c (List.mem_append_left _ hc)
          have hnext := h.1.linked.concat x hcp hv
          have hkept : Stored x s'.db.blockStore st.accepted := by
            refine (h.2 hmax').frame fun c hc => ?_
            rw [hdb, hdoc, if_neg (blockNumberToKey_ne_blkMgrInfoKey _),
              if_neg (hnext.key_ne_next hmax' hc)]
          refine hkept.concat hbody ?_
          rw [hdoc, if_neg (blockNumberToKey_ne_blkMgrInfoKey _), if_pos rfl]

theorem stored_run (ops : List Op)
    (hmax : ∀ b ∈ (run (Op.step x) History.start ops).accepted, b.header.number ≠ maxUint64) :
    Stored x (run (Op.step x) History.start ops).sys.db.blockStore
      (run (Op.step x) History.start ops).accepted :=
  (run_always (P := KeepsStored x) (fun _ op h => h.step op)
    ⟨consistent_start x, fun _ _ hb => nomatch hb⟩).2 hmax

/-! ## §3 The steps of `AddBlock` -/

/-- The steps of a call with no other step between them are `AddBlock`. -/
theorem run_addBlock {st : Shared} (hidle : st.adding = none) (b : Block)
    (fault : Option AddFault) :
    let st' := run (Step.step x) st (.addBlock b fault :: List.replicate 6 .proceed)
    st'.adding = none ∧ st'.committer = st.committer ∧
      (⟨.up st'.committer st'.store, st'.accepted⟩ : History) =
        (Op.addBlock b fault).step x ⟨.up st.committer st.store, st.accepted⟩ := by
  obtain ⟨committer, s, accepted, _, reader⟩ := st
  subst hidle
  cases committer with
  | false => exact ⟨rfl, rfl, rfl⟩
  | true =>
    simp only [List.replicate, run_cons, run_nil, Step.step, Shared.addBlock, Op.step,
      CdbBlockStore.addBlock, if_true, store]
    cases s.validateBlock b with
    | error e => exact ⟨rfl, rfl, rfl⟩
    | ok u =>
      rcases hblock : storeBlock x fault s.db.blockStore b with ⟨blockStore, _ | _⟩
      · simp only [Shared.proceed, hblock]
        exact ⟨trivial, trivial, trivial⟩
      · rcases htxns : storeTransactions x fault s.db.txnStore b with ⟨txnStore, _ | _⟩
        · simp only [Shared.proceed, hblock, htxns]
          exact ⟨trivial, trivial, trivial⟩
        · cases hfault : CdbBlockStore.checkpointFault fault with
          | none =>
            simp only [Shared.proceed, hblock, htxns, hfault, saveCurrentInfo,
              CdbBlockStore.checkpointBlock, if_true]
            exact ⟨trivial, trivial, trivial⟩
          | some cause =>
            simp only [Shared.proceed, hblock, htxns, hfault, saveCurrentInfo,
              CdbBlockStore.checkpointBlock, if_true]
            exact ⟨trivial, trivial, trivial⟩

/-! ## §4 The store -/

variable (x) in
/-- What the cache holds of the chain is right. -/
structure CacheOf (blocks : List Block) (c : BlockCache) : Prop where
  byNum : ∀ lru, c.blocksByNum = some lru → ∀ e ∈ lru.entries, ∀ b ∈ blocks,
    b.header.number = e.1 → e.2 = b
  config : ∀ cb, c.configBlock = some cb → isConfigBlock x cb = true ∧ cb ∈ blocks

theorem cacheOf_newCache (blocks : List Block) (info : BlockchainInfo) (cfg : Config) :
    CacheOf x blocks (newCache info cfg) where
  byNum lru h := by
    unfold newCache newLru at h
    split at h
    next =>
      obtain rfl := Option.some.inj h
      exact fun _ he => nomatch he
    next => cases h
  config _ h := nomatch h

@[simp] theorem blocksByNum_setConfigBlock (c : BlockCache) (b : Block) :
    (c.setConfigBlock x b).blocksByNum = c.blocksByNum := by
  unfold BlockCache.setConfigBlock
  split
  · split
    · rfl
    · split
      · rfl
      · rfl
  · rfl

theorem configBlock_setConfigBlock {b cb : Block}
    (h : (c.setConfigBlock x b).configBlock = some cb) :
    c.configBlock = some cb ∨ (isConfigBlock x b = true ∧ cb = b) := by
  unfold BlockCache.setConfigBlock at h
  split at h
  next hb =>
    split at h
    next => exact Or.inr ⟨hb, (Option.some.inj h).symm⟩
    next =>
      split at h
      next => exact Or.inl h
      next => exact Or.inr ⟨hb, (Option.some.inj h).symm⟩
  next => exact Or.inl h

/-- A block of the chain under its number, and perhaps as the config block, is no harm. -/
theorem CacheOf.set {lru : Lru UInt64 Block}
    (h : CacheOf x blocks c) (hlru : c.blocksByNum = some lru) (hb : b ∈ blocks)
    (hl : Linked x blocks) (hmax : NoWrap blocks) :
    CacheOf x blocks { c with blocksByNum := some (lru.set b.header.number b) } where
  byNum lru' hlru' e he d hd hnum := by
    obtain rfl := Option.some.inj hlru'
    rcases Lru.mem_set he with rfl | ⟨he, _⟩
    · exact hl.eq_of_number_noWrap hmax hb hd hnum.symm
    · exact h.byNum lru hlru e he d hd hnum
  config := h.config

theorem CacheOf.setConfigBlock
    (h : CacheOf x blocks c) (hb : b ∈ blocks) : CacheOf x blocks (c.setConfigBlock x b) where
  byNum := by
    rw [blocksByNum_setConfigBlock]
    exact h.byNum
  config cb hcb := by
    rcases configBlock_setConfigBlock hcb with hcb | ⟨hconf, rfl⟩
    · exact h.config cb hcb
    · exact ⟨hconf, hb⟩

/-- `put` of the block behind the chain. -/
theorem CacheOf.put (h : CacheOf x blocks c)
    (hl : Linked x (blocks ++ [b])) (hmax : ∀ c ∈ blocks, c.header.number ≠ maxUint64) :
    CacheOf x (blocks ++ [b]) (c.put x b) := by
  refine CacheOf.setConfigBlock ⟨fun lru' hlru' e he d hd hnum => ?_, fun cb hcb => ?_⟩
    (List.mem_append_right _ List.mem_cons_self)
  · obtain ⟨lru, hlru, rfl⟩ := Option.map_eq_some_iff.mp hlru'
    rcases List.mem_append.mp hd with hd | hd
    · rcases Lru.mem_set he with rfl | ⟨he, _⟩
      · have hlt := hl.number_lt_next hmax hd
        rw [hnum] at hlt
        exact absurd hlt (UInt64.lt_irrefl _)
      · exact h.byNum lru hlru e he d hd hnum
    · obtain rfl := List.mem_singleton.mp hd
      rcases Lru.mem_set he with rfl | ⟨_, hne⟩
      · rfl
      · exact absurd hnum.symm hne
  · obtain ⟨hconf, hmem⟩ := h.config cb hcb
    exact ⟨hconf, List.mem_append_left _ hmem⟩

/-- A block whose checkpoint could not be saved is forgotten, if it is no config block. -/
theorem CacheOf.of_concat (h : CacheOf x (blocks ++ [b]) c) (hconf : isConfigBlock x b = false) :
    CacheOf x blocks c where
  byNum lru hlru e he d hd := h.byNum lru hlru e he d (List.mem_append_left _ hd)
  config cb hcb := by
    obtain ⟨hcb, hmem⟩ := h.config cb hcb
    refine ⟨hcb, (List.mem_append.mp hmem).resolve_right fun hb => ?_⟩
    rw [List.mem_singleton.mp hb, hconf] at hcb
    cases hcb

/-- The cache, or the database behind it, returns a block of the chain for its number. -/
theorem CacheOf.getBlockByNumber
    {body : Body} (h : CacheOf x blocks c) (hl : Linked x blocks) (hmax : NoWrap blocks)
    (hb : b ∈ blocks) (hbody : blockToCouchDoc x b = .ok body)
    (hread : readDoc db (blockNumberToKey b.header.number) = some body) :
    ∃ c', c.getBlockByNumber x db b.header.number = (c', .ok b) ∧ CacheOf x blocks c' := by
  have hload := retrieveBlockByNumber_of_doc x hbody hread
  unfold BlockCache.getBlockByNumber
  cases hcb : c.configBlock.filter fun cb => cb.header.number = b.header.number with
  | some cb =>
    obtain ⟨hcb, hnum⟩ := Option.filter_eq_some_iff.mp hcb
    obtain rfl : cb = b :=
      hl.eq_of_number_noWrap hmax (h.config cb hcb).2 hb (of_decide_eq_true hnum)
    exact ⟨c, rfl, h⟩
  | none =>
    cases hlru : c.blocksByNum with
    | none =>
      refine ⟨c, ?_, h⟩
      simp only [hload]
    | some lru =>
      have hset := h.set hlru hb hl hmax
      cases hfind : lru.find b.header.number with
      | some v =>
        obtain rfl : v = b := h.byNum lru hlru _ (Lru.mem_of_find hfind) b hb rfl
        exact ⟨_, by simp only [hfind], hset⟩
      | none => exact ⟨_, by simp only [hfind, hload], hset.setConfigBlock hb⟩

def Phase.hasDoc : Phase → Bool
  | .validated => false
  | _ => true

def Phase.hasCache : Phase → Bool
  | .validated | .blockStored | .txnsStored => false
  | _ => true

/-- The chain with the block that is being added, if its call is far enough. -/
def Shared.upTo (st : Shared) (p : Phase → Bool) : List Block :=
  match st.adding with
  | none => st.accepted
  | some a => if p a.phase then st.accepted ++ [a.block] else st.accepted

variable (x) in
/-- The invariant of the store: the blocks of the chain can be read, and the block that is
being added does not disturb them. -/
structure Serves (st : Shared) : Prop where
  linked : Linked x (st.upTo fun _ => true)
  noMax : ∀ b ∈ st.upTo fun _ => true, b.header.number ≠ maxUint64
  cpInfo : st.store.cpInfo = chainCheckpoint x st.accepted
  stored : Stored x st.store.db.blockStore (st.upTo Phase.hasDoc)
  cache : CacheOf x (st.upTo Phase.hasCache) st.store.cache
  fault : ∀ a, st.adding = some a → isConfigBlock x a.block = true →
    CdbBlockStore.checkpointFault a.fault = none

theorem Shared.mem_upTo {st : Shared} (h : b ∈ st.accepted) (p : Phase → Bool) :
    b ∈ st.upTo p := by
  unfold Shared.upTo
  split
  · exact h
  · split
    · exact List.mem_append_left _ h
    · exact h

theorem Shared.upTo_subset {st : Shared} {p : Phase → Bool} (h : b ∈ st.upTo p) :
    b ∈ st.upTo fun _ => true := by
  unfold Shared.upTo at h ⊢
  split at h
  · exact h
  · rw [if_pos rfl]
    split at h
    · exact h
    · exact List.mem_append_left _ h

theorem Shared.linked_upTo {st : Shared} (h : Linked x (st.upTo fun _ => true))
    (p : Phase → Bool) : Linked x (st.upTo p) := by
  unfold Shared.upTo at h ⊢
  split
  · simpa only [*] using h
  · simp only [*, if_true] at h
    split
    · exact h
    · exact (List.isChain_append.mp h).1

section
variable {st : Shared} (h : Serves x st)
include h

theorem Serves.noWrap (p : Phase → Bool) : NoWrap (st.upTo p) :=
  fun b hb => h.noMax b (Shared.upTo_subset (List.dropLast_subset _ hb))

theorem Serves.linked_accepted : Linked x st.accepted := by
  have := Shared.linked_upTo h.linked fun _ => false
  unfold Shared.upTo at this
  split at this
  · exact this
  · exact this

theorem Serves.noWrap_accepted : NoWrap st.accepted :=
  fun b hb => h.noMax b (Shared.mem_upTo (List.dropLast_subset _ hb) _)

/-- The reader is no part of the store. -/
theorem Serves.withReader (r : Option Reader) :
    Serves x { st with reader := r } :=
  ⟨h.linked, h.noMax, h.cpInfo, h.stored, h.cache, h.fault⟩

/-- A call of `AddBlock` begins. -/
theorem Serves.addBlock {fault : Option AddFault}
    (hidle : st.adding = none) (hmax : b.header.number ≠ maxUint64)
    (hfault : isConfigBlock x b = true → CdbBlockStore.checkpointFault fault = none) :
    Serves x (st.addBlock b fault) := by
  obtain ⟨committer, s, accepted, _, reader⟩ := st
  subst hidle
  unfold Shared.addBlock
  split
  next =>
    split
    next => exact h
    next hv =>
      refine ⟨h.linked.concat x h.cpInfo hv, fun c hc => ?_, h.cpInfo, h.stored, h.cache, ?_⟩
      · rcases List.mem_append.mp hc with hc | hc
        · exact h.noMax c hc
        · rw [List.mem_singleton.mp hc]
          exact hmax
      · intro a ha
        obtain rfl := Option.some.inj ha
        exact hfault
  next => exact h

/-- Every step of `AddBlock` keeps the invariant. -/
theorem Serves.proceed (ha : st.adding = some a) :
    Serves x (st.proceed x a) := by
  obtain ⟨committer, s, accepted, _, reader⟩ := st
  subst ha
  obtain ⟨b, fault, phase⟩ := a
  have hl : Linked x (accepted ++ [b]) := h.linked
  have hl' : Linked x accepted := (List.isChain_append.mp hl).1
  have hmax : ∀ c ∈ accepted ++ [b], c.header.number ≠ maxUint64 := h.noMax
  have hmax' : ∀ c ∈ accepted, c.header.number ≠ maxUint64 :=
    fun c hc => hmax c (List.mem_append_left _ hc)
  have hfault := h.fault _ rfl
  have hidle : ∀ a : Adding, none = some a → isConfigBlock x a.block = true →
      CdbBlockStore.checkpointFault a.fault = none := by
    intro a ha
    cases ha
  cases phase with
  | validated =>
    have hstored : Stored x s.db.blockStore accepted := h.stored
    simp only [Shared.proceed]
    rcases hstore : storeBlock x fault s.db.blockStore b with ⟨db', r⟩
    rcases storeBlock_cases x hstore with ⟨rfl, e, rfl⟩ | ⟨body, hbody, rfl, rfl⟩
    · exact ⟨hl', hmax', h.cpInfo, hstored, h.cache, hidle⟩
    · refine ⟨hl, hmax, h.cpInfo, ?_, h.cache, fun a ha => Option.some.inj ha ▸ hfault⟩
      refine (hstored.frame fun c hc => ?_).concat hbody ?_
      · rw [readDoc_saveDoc, if_neg (hl.key_ne_next hmax' hc)]
      · rw [readDoc_saveDoc, if_pos rfl]
  | blockStored =>
    have hstored : Stored x s.db.blockStore (accepted ++ [b]) := h.stored
    simp only [Shared.proceed]
    rcases storeTransactions x fault s.db.txnStore b with ⟨txnStore, _ | _⟩
    · exact ⟨hl', hmax', h.cpInfo, fun c hc => hstored c (List.mem_append_left _ hc), h.cache,
        hidle⟩
    · exact ⟨hl, hmax, h.cpInfo, hstored, h.cache, fun a ha => Option.some.inj ha ▸ hfault⟩
  | txnsStored =>
    exact ⟨hl, hmax, h.cpInfo, h.stored, CacheOf.put h.cache hl hmax',
      fun a ha => Option.some.inj ha ▸ hfault⟩
  | cached =>
    have hstored : Stored x s.db.blockStore (accepted ++ [b]) := h.stored
    have hcache : CacheOf x (accepted ++ [b]) s.cache := h.cache
    simp only [Shared.proceed, saveCurrentInfo]
    cases hf : CdbBlockStore.checkpointFault fault with
    | some cause =>
      have hconf : isConfigBlock x b = false := by
        by_contra hc
        have := hfault (Bool.not_eq_false _ ▸ hc)
        rw [hf] at this
        cases this
      exact ⟨hl', hmax', h.cpInfo, fun c hc => hstored c (List.mem_append_left _ hc),
        hcache.of_concat hconf, hidle⟩
    | none =>
      exact ⟨hl, hmax, h.cpInfo, hstored.saveCheckpoint _, hcache,
        fun a ha => Option.some.inj ha ▸ hfault⟩
  | checkpointSaved =>
    have hcache : CacheOf x (accepted ++ [b]) s.cache := h.cache
    exact ⟨hl, hmax, h.cpInfo, h.stored, ⟨hcache.byNum, hcache.config⟩,
      fun a ha => Option.some.inj ha ▸ hfault⟩
  | infoSet =>
    exact ⟨hl, hmax, (chainCheckpoint_concat x accepted b).symm, h.stored, h.cache,
      hidle⟩

/-- A read of a block of the chain returns it and keeps the invariant. -/
theorem Serves.retrieve (hb : b ∈ st.accepted) :
    ∃ s', st.store.retrieveBlockByNumber x b.header.number = (s', .ok b) ∧
      s'.cpInfo = st.store.cpInfo ∧ ∀ r, Serves x { st with store := s', reader := r } := by
  obtain ⟨body, hbody, hread⟩ := h.stored b (Shared.mem_upTo hb _)
  obtain ⟨c', hget, hcache⟩ := h.cache.getBlockByNumber (Shared.linked_upTo h.linked _)
    (h.noWrap _) (Shared.mem_upTo hb _) hbody hread
  refine ⟨{ st.store with cache := c' }, ?_, rfl, fun r =>
    ⟨h.linked, h.noMax, h.cpInfo, h.stored, hcache, h.fault⟩⟩
  simp only [CdbBlockStore.retrieveBlockByNumber, if_neg (h.noMax b (Shared.mem_upTo hb _)), hget]

end

/-! ## §5 The iterator -/

/-- The invariant of the iterator: its calls returned the blocks from the start on, each one
once, and `nil` after `Close`; and it does not sleep when the block it waits for is there. -/
structure Follows (st : Shared) (r : Reader) (returned : List Block) (nils : Nat) : Prop where
  results : r.results =
    returned.map (fun b => .ok (some b)) ++ List.replicate nils (.ok none)
  accepted : ∀ b ∈ returned, b ∈ st.accepted
  numbers : returned.map (fun b => b.header.number) =
    (List.range returned.length).map fun i => r.startNum + UInt64.ofNat i
  closed : nils ≠ 0 → r.itr.closeMarker = true
  next : r.itr.blockNumToRetrieve = r.startNum + UInt64.ofNat returned.length
  available : r.itr.maxBlockNumAvailable ≤ st.store.cpInfo.lastBlockNumber
  ready : r.call = .ready → r.itr.closeMarker = true ∨
    r.itr.blockNumToRetrieve ≤ st.store.cpInfo.lastBlockNumber
  asleep : r.call = .asleep → r.itr.closeMarker = false ∧
    st.store.cpInfo.lastBlockNumber < r.itr.blockNumToRetrieve

theorem follows_newBlockItr (st : Shared) (startNum : UInt64) :
    Follows st ⟨startNum, newBlockItr st.store startNum, .idle, []⟩ [] 0 where
  results := rfl
  accepted _ h := nomatch h
  numbers := rfl
  closed h := absurd rfl h
  next := by simp [newBlockItr]
  available := UInt64.le_refl _
  ready h := nomatch h
  asleep h := nomatch h

section
variable {st st' : Shared} {r : Reader} {returned : List Block} {nils : Nat}

section
variable (h : Follows st r returned nils)
include h

/-- Steps that leave the checkpoint and the chain. -/
theorem Follows.congr (hcp : st'.store.cpInfo = st.store.cpInfo)
    (hacc : st'.accepted = st.accepted) : Follows st' r returned nils :=
  ⟨h.results, hacc ▸ h.accepted, h.numbers, h.closed, h.next, hcp ▸ h.available, hcp ▸ h.ready,
    hcp ▸ h.asleep⟩

/-- The chain grows, and who sleeps is woken. -/
theorem Follows.wake (hcp : st.store.cpInfo.lastBlockNumber ≤ st'.store.cpInfo.lastBlockNumber)
    (hacc : ∀ b ∈ st.accepted, b ∈ st'.accepted) : Follows st' r.wake returned nils := by
  have hmem : ∀ b ∈ returned, b ∈ st'.accepted := fun b hb => hacc b (h.accepted b hb)
  have havail := UInt64.le_trans h.available hcp
  obtain ⟨startNum, itr, call, results⟩ := r
  cases call with
  | idle => exact ⟨h.results, hmem, h.numbers, h.closed, h.next, havail, nofun, nofun⟩
  | checking => exact ⟨h.results, hmem, h.numbers, h.closed, h.next, havail, nofun, nofun⟩
  | asleep => exact ⟨h.results, hmem, h.numbers, h.closed, h.next, havail, nofun, nofun⟩
  | ready =>
    exact ⟨h.results, hmem, h.numbers, h.closed, h.next, havail,
      fun _ => (h.ready rfl).imp_right fun hle => UInt64.le_trans hle hcp, nofun⟩

theorem Follows.callNext : Follows st r.next returned nils := by
  unfold Reader.next
  split
  next => exact ⟨h.results, h.accepted, h.numbers, h.closed, h.next, h.available, nofun, nofun⟩
  next hle =>
    exact ⟨h.results, h.accepted, h.numbers, h.closed, h.next, h.available,
      fun _ => Or.inr (UInt64.le_trans (UInt64.not_lt.mp hle) h.available), nofun⟩

theorem Follows.check :
    Follows st (r.check st.store.cpInfo) returned nils := by
  unfold Reader.check
  split
  next hc =>
    exact ⟨h.results, h.accepted, h.numbers, h.closed, h.next, h.available, nofun,
      fun _ => ⟨hc.2, hc.1⟩⟩
  next hc =>
    refine ⟨h.results, h.accepted, h.numbers, h.closed, h.next, UInt64.le_refl _, fun _ => ?_,
      nofun⟩
    by_cases hclose : r.itr.closeMarker = true
    · exact Or.inl hclose
    · exact Or.inr (UInt64.not_lt.mp fun hlt => hc ⟨hlt, Bool.not_eq_true _ ▸ hclose⟩)

theorem Follows.close : Follows st r.close returned nils := by
  obtain ⟨startNum, itr, call, results⟩ := r
  cases call with
  | ready =>
    exact ⟨h.results, h.accepted, h.numbers, fun _ => rfl, h.next, h.available,
      fun _ => Or.inl rfl, nofun⟩
  | _ => exact ⟨h.results, h.accepted, h.numbers, fun _ => rfl, h.next, h.available, nofun, nofun⟩

/-- After `Close` a call returns `nil`. -/
theorem Follows.returnNil (hclose : r.itr.closeMarker = true) :
    Follows st { r with call := .idle, results := r.results ++ [.ok none] } returned (nils + 1)
    where
  results := by
    show r.results ++ [.ok none] = _
    rw [h.results, List.append_assoc, ← List.replicate_succ']
  accepted := h.accepted
  numbers := h.numbers
  closed _ := hclose
  next := h.next
  available := h.available
  ready := nofun
  asleep := nofun

/-- A call returns the next block. -/
theorem Follows.returnBlock {b : Block} (hopen : r.itr.closeMarker = false) (hb : b ∈ st.accepted)
    (hnum : b.header.number = r.itr.blockNumToRetrieve) :
    Follows st
      { r with
        itr := { r.itr with blockNumToRetrieve := r.itr.blockNumToRetrieve + 1 }
        call := .idle
        results := r.results ++ [.ok (some b)] } (returned ++ [b]) 0 := by
  obtain rfl : nils = 0 := by
    by_contra hne
    have := h.closed hne
    rw [hopen] at this
    cases this
  refine ⟨?_, fun c hc => ?_, ?_, fun hc => absurd rfl hc, ?_, h.available, nofun, nofun⟩
  · show r.results ++ [.ok (some b)] = _
    rw [h.results]
    simp
  · rcases List.mem_append.mp hc with hc | hc
    · exact h.accepted c hc
    · rwa [List.mem_singleton.mp hc]
  · rw [List.map_append, h.numbers, List.length_append, List.length_singleton, List.range_succ,
      List.map_append, List.map_singleton, List.map_singleton, hnum, h.next]
  · show r.itr.blockNumToRetrieve + 1 = _
    rw [h.next, List.length_append, List.length_singleton, UInt64.ofNat_add, UInt64.add_assoc]
    rfl

end

end

/-! ## §6 Interleavings -/

variable (x) in
/-- A read is in time if the chain has begun, at the wanted block or before it. No block has
the greatest number, and no checkpoint of a config block fails to be saved: the cache would
hold on to that block. -/
def InTime (st : Shared) : Step → Prop
  | .addBlock b fault => b.header.number ≠ maxUint64 ∧
    (isConfigBlock x b = true → (CdbBlockStore.checkpointFault fault).isNone = true)
  | .retrieve => ∀ r ∈ st.reader, r.call = .ready → r.itr.closeMarker = false →
    ∃ first ∈ st.accepted.head?, first.header.number ≤ r.itr.blockNumToRetrieve
  | _ => True

variable (x) in
def Agrees (st : Shared) : Prop :=
  Serves x st ∧ ∀ r, st.reader = some r → ∃ returned nils, Follows st r returned nils

/-- Before its last step, `AddBlock` changes nothing the iterator waits for. -/
theorem proceed_frame {st : Shared} (h : a.phase ≠ .infoSet) :
    (st.proceed x a).reader = st.reader ∧ (st.proceed x a).accepted = st.accepted ∧
      (st.proceed x a).store.cpInfo = st.store.cpInfo := by
  obtain ⟨b, fault, phase⟩ := a
  cases phase with
  | validated =>
    simp only [Shared.proceed]
    rcases storeBlock x fault st.store.db.blockStore b with ⟨_, _ | _⟩ <;> exact ⟨rfl, rfl, rfl⟩
  | blockStored =>
    simp only [Shared.proceed]
    rcases storeTransactions x fault st.store.db.txnStore b with ⟨_, _ | _⟩ <;>
      exact ⟨rfl, rfl, rfl⟩
  | txnsStored => exact ⟨rfl, rfl, rfl⟩
  | cached =>
    simp only [Shared.proceed]
    rcases saveCurrentInfo x (CdbBlockStore.checkpointFault fault) st.store.db.blockStore
      (CdbBlockStore.checkpointOf x b.header) with ⟨_, _ | _⟩ <;> exact ⟨rfl, rfl, rfl⟩
  | checkpointSaved => exact ⟨rfl, rfl, rfl⟩
  | infoSet => exact absurd rfl h

section
variable {st : Shared} (h : Serves x st)
include h

/-- The block that is being added has no smaller number than the last one. -/
theorem Serves.last_le (ha : st.adding = some a) :
    st.store.cpInfo.lastBlockNumber ≤ a.block.header.number := by
  have hl : Linked x (st.accepted ++ [a.block]) := by
    have := h.linked
    simpa only [Shared.upTo, ha, if_true] using this
  rw [h.cpInfo, chainCheckpoint]
  split
  next => exact UInt64.zero_le
  next last hlast =>
    have hmax : ∀ c ∈ st.accepted, c.header.number ≠ maxUint64 :=
      fun c hc => h.noMax c (Shared.mem_upTo hc _)
    exact UInt64.le_of_lt (hl.number_lt_next hmax (List.mem_of_getLast? hlast))

/-- A number between the first block and the checkpoint is that of an accepted block. -/
theorem Serves.exists_block {first : Block}
    (hfirst : st.accepted.head? = some first) (hle : first.header.number ≤ n)
    (hge : n ≤ st.store.cpInfo.lastBlockNumber) : ∃ b ∈ st.accepted, b.header.number = n := by
  have hlast := List.getLast?_eq_some_getLast (List.ne_nil_of_mem (List.mem_of_head? hfirst))
  rw [h.cpInfo, chainCheckpoint, hlast] at hge
  exact h.linked_accepted.exists_number h.noWrap_accepted hfirst hlast hle hge

theorem Serves.number_le_last
    (hb : b ∈ st.accepted) : b.header.number ≤ st.store.cpInfo.lastBlockNumber := by
  have hlast := List.getLast?_eq_some_getLast (List.ne_nil_of_mem hb)
  rw [h.cpInfo, chainCheckpoint, hlast]
  exact h.linked_accepted.number_le_last h.noWrap_accepted hlast hb

/-- A call that reads a block of the chain returns it. -/
theorem Serves.reader_retrieve {r : Reader}
    (hopen : r.itr.closeMarker = false) (hb : b ∈ st.accepted)
    (hnum : b.header.number = r.itr.blockNumToRetrieve) :
    ∃ s', r.retrieve x st.store = (s',
        { r with
          itr := { r.itr with blockNumToRetrieve := r.itr.blockNumToRetrieve + 1 }
          call := .idle
          results := r.results ++ [.ok (some b)] }) ∧
      s'.cpInfo = st.store.cpInfo ∧ ∀ r, Serves x { st with store := s', reader := r } := by
  obtain ⟨s', hget, hcp, hserves⟩ := h.retrieve hb
  refine ⟨s', ?_, hcp, hserves⟩
  rw [hnum] at hget
  simp only [Reader.retrieve, hopen, Bool.false_eq_true, if_false, hget]

end

theorem addBlock_frame (st : Shared) (b : Block) (fault : Option AddFault) :
    (st.addBlock b fault).reader = st.reader ∧ (st.addBlock b fault).accepted = st.accepted ∧
      (st.addBlock b fault).store.cpInfo = st.store.cpInfo := by
  unfold Shared.addBlock
  split
  next => split <;> exact ⟨rfl, rfl, rfl⟩
  next => exact ⟨rfl, rfl, rfl⟩

/-- A step of the other goroutine that changes nothing the iterator waits for. -/
theorem Agrees.of_frame {st st' : Shared} (h : Agrees x st) (hs : Serves x st')
    (hframe : st'.reader = st.reader ∧ st'.accepted = st.accepted ∧
      st'.store.cpInfo = st.store.cpInfo) : Agrees x st' := by
  obtain ⟨hreader, hacc, hcp⟩ := hframe
  refine ⟨hs, fun r hr => ?_⟩
  obtain ⟨returned, nils, hf⟩ := h.2 r (hreader ▸ hr)
  exact ⟨returned, nils, hf.congr hcp hacc⟩

section
variable {st : Shared} (h : Agrees x st)
include h

/-- A step of the iterator alone. -/
theorem Agrees.withReader {r r' : Reader} (hr : st.reader = some r)
    (hf : ∀ {returned nils}, Follows st r returned nils → Follows st r' returned nils) :
    Agrees x { st with reader := some r' } := by
  refine ⟨h.1.withReader _, fun r₂ hr₂ => ?_⟩
  obtain rfl := Option.some.inj hr₂
  obtain ⟨returned, nils, hf'⟩ := h.2 r hr
  exact ⟨returned, nils, (hf hf').congr rfl rfl⟩

/-- The last step of `AddBlock`. -/
theorem Agrees.updateCheckpoint
    (hadd : st.adding = some a) (hlast : a.phase = .infoSet) : Agrees x (st.proceed x a) := by
  refine ⟨h.1.proceed hadd, fun r hread => ?_⟩
  simp only [Shared.proceed, hlast] at hread ⊢
  obtain ⟨r₀, hr₀, rfl⟩ := Option.map_eq_some_iff.mp hread
  obtain ⟨returned, nils, hf⟩ := h.2 r₀ hr₀
  exact ⟨returned, nils, hf.wake (h.1.last_le hadd) fun b hb => List.mem_append_left _ hb⟩

/-- The last step of `Next`. -/
theorem Agrees.retrieve {r : Reader} (hr : st.reader = some r)
    (hready : r.call = .ready) (hok : InTime x st .retrieve) :
    Agrees x { st with
      store := (r.retrieve x st.store).1, reader := some (r.retrieve x st.store).2 } := by
  obtain ⟨returned, nils, hf⟩ := h.2 r hr
  by_cases hclose : r.itr.closeMarker = true
  · simp only [Reader.retrieve, hclose, if_true]
    refine ⟨h.1.withReader _, fun r₂ hr₂ => ?_⟩
    obtain rfl := Option.some.inj hr₂
    exact ⟨returned, nils + 1, (hf.returnNil hclose).congr rfl rfl⟩
  · have hopen : r.itr.closeMarker = false := Bool.not_eq_true _ ▸ hclose
    obtain ⟨first, hfirst, hle⟩ := hok r hr hready hopen
    obtain ⟨b, hb, hnum⟩ := h.1.exists_block hfirst hle ((hf.ready hready).resolve_left hclose)
    obtain ⟨s', hget, hcp, hserves⟩ := h.1.reader_retrieve hopen hb hnum
    rw [hget]
    refine ⟨hserves _, fun r₂ hr₂ => ?_⟩
    obtain rfl := Option.some.inj hr₂
    exact ⟨returned ++ [b], 0, (hf.returnBlock hopen hb hnum).congr hcp rfl⟩

/-- Every step that is in time keeps the invariant. -/
theorem Agrees.step {op : Step} (hok : InTime x st op) :
    Agrees x (op.step x st) := by
  cases op with
  | addBlock b fault =>
    cases hadd : st.adding with
    | some a => simpa only [Step.step, hadd] using h
    | none =>
      simp only [Step.step, hadd]
      exact h.of_frame (h.1.addBlock hadd hok.1 fun hc => Option.isNone_iff_eq_none.mp (hok.2 hc))
        (addBlock_frame st b fault)
  | proceed =>
    cases hadd : st.adding with
    | none => simpa only [Step.step, hadd] using h
    | some a =>
      simp only [Step.step, hadd]
      by_cases hlast : a.phase = .infoSet
      · exact h.updateCheckpoint hadd hlast
      · exact h.of_frame (h.1.proceed hadd) (proceed_frame hlast)
  | retrieveBlocks startNum =>
    cases hread : st.reader with
    | some r => simpa only [Step.step, hread] using h
    | none =>
      simp only [Step.step, hread]
      refine ⟨h.1.withReader _, fun r hr => ?_⟩
      obtain rfl := Option.some.inj hr
      exact ⟨[], 0, (follows_newBlockItr st startNum).congr rfl rfl⟩
  | next =>
    cases hread : st.reader with
    | none => simpa only [Step.step, hread] using h
    | some r =>
      cases hcall : r.call with
      | idle =>
        simp only [Step.step, hread, hcall]
        exact h.withReader hread Follows.callNext
      | _ => simpa only [Step.step, hread, hcall] using h
  | check =>
    cases hread : st.reader with
    | none => simpa only [Step.step, hread] using h
    | some r =>
      cases hcall : r.call with
      | checking =>
        simp only [Step.step, hread, hcall]
        exact h.withReader hread Follows.check
      | _ => simpa only [Step.step, hread, hcall] using h
  | retrieve =>
    cases hread : st.reader with
    | none => simpa only [Step.step, hread] using h
    | some r =>
      cases hcall : r.call with
      | ready =>
        simp only [Step.step, hread, hcall]
        exact h.retrieve hread hcall hok
      | _ => simpa only [Step.step, hread, hcall] using h
  | close =>
    cases hread : st.reader with
    | none =>
      simp only [Step.step, hread]
      exact ⟨h.1.withReader _, fun _ hr => nomatch hr⟩
    | some r =>
      simp only [Step.step, hread]
      exact h.withReader hread Follows.close

end

/-! ### Delivery -/

variable (x) in
/-- What an iterator is for: its calls returned the blocks from the start number on, each one
once and in this order, and nothing else, but `nil` after `Close`. If the next block is there,
a call returns it; if the chain has not got so far, a call waits. -/
def Delivers (st : Shared) : Prop :=
  ∀ r, st.reader = some r → ∃ (returned : List Block) (nils : Nat),
    r.results = returned.map (fun b => .ok (some b)) ++ List.replicate nils (.ok none) ∧
    (∀ b ∈ returned, b ∈ st.accepted) ∧
    returned.map (fun b => b.header.number) =
      (List.range returned.length).map (fun i => r.startNum + UInt64.ofNat i) ∧
    (nils ≠ 0 → r.itr.closeMarker = true) ∧
    (r.itr.closeMarker = false →
      (∀ b ∈ st.accepted, b.header.number = r.startNum + UInt64.ofNat returned.length →
        ∃ r', (run (Step.step x) st [.next, .check, .retrieve]).reader = some r' ∧
          r'.results = r.results ++ [.ok (some b)]) ∧
      ((∀ b ∈ st.accepted, b.header.number < r.startNum + UInt64.ofNat returned.length) →
        (st.accepted = [] → r.startNum + UInt64.ofNat returned.length ≠ 0) →
        ∃ r', (run (Step.step x) st [.next, .check]).reader = some r' ∧ r'.call = .asleep ∧
          r'.results = r.results))

theorem Delivers.no_error {st : Shared} {r : Reader} (h : Delivers x st) (hr : st.reader = some r)
    (e : Err) : .error e ∉ r.results := by
  intro he
  obtain ⟨returned, nils, hresults, _⟩ := h r hr
  rw [hresults] at he
  rcases List.mem_append.mp he with he | he
  · obtain ⟨_, _, hc⟩ := List.mem_map.mp he
    cases hc
  · exact nomatch List.eq_of_mem_replicate he

section
variable {st : Shared} {r : Reader} {returned : List Block} {nils : Nat}
  (h : Follows st r returned nils) (hr : st.reader = some r)
include h hr

/-- When the wanted block is there, a call comes to its read. -/
theorem Follows.run_ready (hle : r.itr.blockNumToRetrieve ≤ st.store.cpInfo.lastBlockNumber) :
    ∃ max, run (Step.step x) st [.next, .check] = { st with
      reader := some { r with
        itr := { r.itr with maxBlockNumAvailable := max }, call := .ready } } := by
  obtain ⟨startNum, ⟨max, n, closeMarker⟩, call, results⟩ := r
  have hlt : ¬ (st.store.cpInfo.lastBlockNumber < n ∧ closeMarker = false) :=
    fun hc => UInt64.not_lt.mpr hle hc.1
  cases call with
  | asleep => exact absurd (h.asleep rfl).2 (UInt64.not_lt.mpr hle)
  | ready =>
    refine ⟨max, ?_⟩
    simp only [run_cons, run_nil, Step.step, hr]
    rw [← hr]
  | checking =>
    refine ⟨st.store.cpInfo.lastBlockNumber, ?_⟩
    simp only [run_cons, run_nil, Step.step, hr, Reader.check, if_neg hlt]
  | idle =>
    by_cases hmax : max < n
    · refine ⟨st.store.cpInfo.lastBlockNumber, ?_⟩
      simp only [run_cons, run_nil, Step.step, hr, Reader.next, if_pos hmax, Reader.check,
        if_neg hlt]
    · refine ⟨max, ?_⟩
      simp only [run_cons, run_nil, Step.step, hr, Reader.next, if_neg hmax]

/-- When it is not, a call falls asleep. -/
theorem Follows.run_asleep (hopen : r.itr.closeMarker = false)
    (hlt : st.store.cpInfo.lastBlockNumber < r.itr.blockNumToRetrieve) :
    run (Step.step x) st [.next, .check] =
      { st with reader := some { r with call := .asleep } } := by
  obtain ⟨startNum, ⟨max, n, closeMarker⟩, call, results⟩ := r
  have hwait : st.store.cpInfo.lastBlockNumber < n ∧ closeMarker = false := ⟨hlt, hopen⟩
  cases call with
  | asleep =>
    simp only [run_cons, run_nil, Step.step, hr]
    rw [← hr]
  | ready =>
    rcases h.ready rfl with hc | hle
    · exact nomatch hopen.symm.trans hc
    · exact absurd hlt (UInt64.not_lt.mpr hle)
  | checking => simp only [run_cons, run_nil, Step.step, hr, Reader.check, if_pos hwait]
  | idle =>
    have hmax : max < n := UInt64.lt_of_le_of_lt h.available hlt
    simp only [run_cons, run_nil, Step.step, hr, Reader.next, if_pos hmax, Reader.check,
      if_pos hwait]

end

theorem Agrees.delivers {st : Shared} (h : Agrees x st) : Delivers x st := by
  intro r hr
  obtain ⟨returned, nils, hf⟩ := h.2 r hr
  refine ⟨returned, nils, hf.results, hf.accepted, hf.numbers, hf.closed, fun hopen => ?_⟩
  rw [← hf.next]
  constructor
  · intro b hb hnum
    obtain ⟨max, hready⟩ := hf.run_ready (x := x) hr (hnum ▸ h.1.number_le_last hb)
    obtain ⟨s', hget, _⟩ := h.1.reader_retrieve
      (r := { r with itr := { r.itr with maxBlockNumAvailable := max }, call := .ready })
      hopen hb hnum
    refine ⟨{ r with
      itr := ⟨max, r.itr.blockNumToRetrieve + 1, r.itr.closeMarker⟩
      call := .idle
      results := r.results ++ [.ok (some b)] }, ?_, rfl⟩
    rw [show [Step.next, .check, .retrieve] = [.next, .check] ++ [.retrieve] from rfl, run_append,
      hready]
    simp only [run_cons, run_nil, Step.step, hget]
  · intro hall hempty
    have hlt : st.store.cpInfo.lastBlockNumber < r.itr.blockNumToRetrieve := by
      rw [h.1.cpInfo, chainCheckpoint]
      split
      next hnone =>
        have hne := hempty (List.getLast?_eq_none_iff.mp hnone)
        exact UInt64.pos_iff_ne_zero.mpr hne
      next last hlast => exact hall last (List.mem_of_getLast? hlast)
    rw [hf.run_asleep hr hopen hlt]
    exact ⟨_, rfl, rfl, rfl⟩

/-- A store is opened with an empty cache. -/
theorem cache_newCDBBlockStore {cfg : Config} {fault : Option Err} {db : Databases}
    {s : CdbBlockStore} (h : (newCDBBlockStore x cfg fault db).2 = .ok s) :
    ∃ info, s.cache = newCache info cfg := by
  unfold newCDBBlockStore at h
  split at h
  next => cases h
  next =>
    split at h
    next => cases h
    next =>
      dsimp only at h
      split at h
      next =>
        obtain rfl := Except.ok.inj h
        exact ⟨_, rfl⟩
      next =>
        split at h
        next => cases h
        next =>
          obtain rfl := Except.ok.inj h
          exact ⟨_, rfl⟩

/-- A store that was opened on the databases of a chain. -/
theorem agrees_start {db : Databases} {cfg : Config} {s : CdbBlockStore}
    (hl : Linked x blocks) (hread : Readable x db.blockStore blocks)
    (hstored : Stored x db.blockStore blocks)
    (hmax : ∀ b ∈ blocks, b.header.number ≠ maxUint64)
    (hopen : (newCDBBlockStore x cfg none db).2 = .ok s) (committer : Bool) :
    Agrees x (.start committer s blocks) := by
  obtain ⟨info, hcache⟩ := cache_newCDBBlockStore hopen
  obtain ⟨s', hs', hhead, _, _, hdb⟩ := newCDBBlockStore_of_readable x hread cfg
  rw [hs'] at hopen
  obtain rfl := Except.ok.inj hopen
  refine ⟨⟨hl, hmax, (Prod.mk.inj hhead).1, ?_, ?_, fun _ h => nomatch h⟩, fun _ h => nomatch h⟩
  · show Stored x s'.db.blockStore blocks
    rw [hdb]
    exact hstored.saveCheckpoint _
  · show CacheOf x blocks s'.cache
    rw [hcache]
    exact cacheOf_newCache blocks info cfg

variable (x) in
/-- On a store that was opened after any run, in every interleaving of `AddBlock`, `Next` and
`Close` whose steps are in time, the iterator delivers. -/
theorem iterator_delivers {ops : List Op}
    (hmax : ∀ b ∈ (run (Op.step x) History.start ops).accepted, b.header.number ≠ maxUint64)
    {cfg : Config} {s : CdbBlockStore}
    (hopen : (newCDBBlockStore x cfg none (run (Op.step x) History.start ops).sys.db).2 = .ok s)
    {committer : Bool} {steps : List Step}
    (hsteps : Meets (Step.step x) (InTime x)
      (.start committer s (run (Op.step x) History.start ops).accepted) steps) :
    Delivers x (run (Step.step x)
      (.start committer s (run (Op.step x) History.start ops).accepted) steps) := by
  have hcons := consistent_run x ops
  have hstart := agrees_start hcons.linked hcons.readable (stored_run ops hmax) hmax hopen
    committer
  exact (run_invariant (P := Agrees x) (fun _ _ h hok => h.step hok) hstart hsteps).delivers

end

instance decidableInTime (x : Externals) (st : Shared) : ∀ op, Decidable (InTime x st op)
  | .addBlock b fault => inferInstanceAs (Decidable (b.header.number ≠ maxUint64 ∧
      (isConfigBlock x b = true → (CdbBlockStore.checkpointFault fault).isNone = true)))
  | .retrieve => inferInstanceAs (Decidable (∀ r ∈ st.reader, r.call = .ready →
      r.itr.closeMarker = false →
        ∃ first ∈ st.accepted.head?, first.header.number ≤ r.itr.blockNumToRetrieve))
  | .proceed | .retrieveBlocks _ | .next | .check | .close => isTrue trivial

def emptyStore : CdbBlockStore :=
  ⟨⟨saveDoc ∅ blkMgrInfoKey (checkpointInfoToCouchDoc plainExternals ⟨true, 0, []⟩), ∅⟩,
    ⟨true, 0, []⟩, newCache ⟨0, [], []⟩ ⟨2, 2⟩⟩

def waitingReader : List Step :=
  let b₀ := plainBlock 0 [] [[7]] [0]
  .addBlock b₀ none :: List.replicate 6 .proceed ++
    [.retrieveBlocks 0, .next, .retrieve, .next, .check, .addBlock (plainNext b₀ [] []) none,
      .proceed, .proceed, .proceed, .check, .proceed, .proceed, .proceed, .check, .retrieve]

theorem iterator_delivers_waitingReader :
    Delivers plainExternals
      (run (Step.step plainExternals) (.start true emptyStore []) waitingReader) :=
  @iterator_delivers plainExternals [] (fun _ h => nomatch h) ⟨2, 2⟩ emptyStore rfl true
    waitingReader (by decide +kernel)

/-- On an empty chain an iterator from block 0 does not wait. -/
theorem iterator_emptyChain :
    (run (Step.step plainExternals) (.start true emptyStore [])
      [.retrieveBlocks 0, .next, .retrieve]).reader.map Reader.results =
        some [.error .notFoundInIndex] ∧
      ¬ Delivers plainExternals (run (Step.step plainExternals) (.start true emptyStore [])
        [.retrieveBlocks 0, .next, .retrieve]) := by
  refine ⟨rfl, fun h => ?_⟩
  exact h.no_error rfl .notFoundInIndex List.mem_cons_self

end FabricPeerExt.Blkstorage
