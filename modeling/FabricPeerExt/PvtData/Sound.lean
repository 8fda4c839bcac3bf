/-
FabricPeerExt.PvtData.Sound — what holds of the store in every run (`sound_after`).

Every later invariant is proved over `StoreChange` and uses `Sound` for the rest.
-/
import FabricPeerExt.PvtData.PurgeTheorems
import FabricPeerExt.PvtData.System

namespace FabricPeerExt.PvtData

open Lib

/-! ## §1 Inputs -/

def NulFreeInfo (info : MissingPvtDataInfo) : Prop :=
  ∀ el ∈ missingElements info, NulFree el.1.ns

instance (info : MissingPvtDataInfo) : Decidable (NulFreeInfo info) :=
  inferInstanceAs (Decidable (∀ el ∈ _, _))

def Sane (sys : Sys) : Op → Prop
  | .commit _ pvtData missing => Store.NulFreeData pvtData ∧ Store.NulFreeMissing missing
  | .commitPvtDataOfOldBlocks blocksPvtData unreconciled =>
    Store.NulFreeBlocks blocksPvtData ∧
      (∀ b ∈ blocksPvtData.keys, b ≤ sys.store.lastCommittedBlock) ∧ NulFreeInfo unreconciled
  | _ => True

instance (sys : Sys) : ∀ op, Decidable (Sane sys op)
  | .commit .. => inferInstanceAs (Decidable (_ ∧ _))
  | .commitPvtDataOfOldBlocks blocksPvtData _ =>
    have := List.decidableBAll (fun b => b ≤ sys.store.lastCommittedBlock) blocksPvtData.keys
    inferInstanceAs (Decidable (_ ∧ _ ∧ _))
  | .purge _ | .processCollsEligibilityEnabled .. | .procStart | .procStep | .procWake
  | .resetLastUpdatedOldBlocksList | .reopen => inferInstanceAs (Decidable True)

/-! ## §2 Shape -/

/-- The count in memory and the count in CouchDB. A store that was reopened with block 0
as its only block has the document of that block and takes itself for empty. No block
after 2^63 is committed, since the number could not be read back. -/
def CounterOk (s : Store) : Prop :=
  (s.db.lookup lastCommittedBlockID = none ∧ s.empty = true ∧ s.lastCommittedBlock = 0) ∨
    ∃ rev, s.db.lookup lastCommittedBlockID =
        some ⟨rev, .lastCommittedBlock (formatUint s.lastCommittedBlock)⟩ ∧
      (s.empty = true → s.lastCommittedBlock = 0) ∧ s.lastCommittedBlock.toNat ≤ 2 ^ 63

/-- The shape of the documents, with the block count. -/
structure DbSound (x : Externals) (btlPolicy : BtlPolicy) (s : Store) : Prop where
  dbOk : DbOk x s.db
  counter : CounterOk s
  block_le : ∀ {b d}, blockDoc s.db b = some d → b ≤ s.lastCommittedBlock
  /-- Data is listed under the block at which it expires. -/
  present : ∀ {e b ed ns coll txNum}, s.expiryAt x ⟨e, b⟩ = some ed →
    ed.Present ns coll txNum → NulFree ns ∧ ExpiresAt btlPolicy ⟨ns, coll, b⟩ e
  missing : ∀ {e b ed ns coll}, s.expiryAt x ⟨e, b⟩ = some ed → ed.Missing ns coll →
    (NulFree ns ∧ NulFree coll) ∧ ExpiresAt btlPolicy ⟨ns, coll, b⟩ e
  /-- The policy knows the collection of all data. -/
  policy : ∀ {k v}, NulFree k.ns → s.dataAt x k = some v →
    ∃ e, btlPolicy.getExpiringBlock k.ns k.coll k.blkNum = .ok e

/-- A missing-data key and bitmap as they are stored: names without NUL byte, a bitmap
that is not empty, a block that has been committed. -/
structure MissingOk (last : UInt64) (k : MissingDataKey) (bm : BitSet) : Prop where
  ns : NulFree k.ns
  coll : NulFree k.coll
  bitmap : bm.none = false
  block : k.blkNum ≤ last

def InelgPair (x : Externals) (last : UInt64) (p : Bytes × Bytes) : Prop :=
  ∃ k bm, p.1 = encodeInelgMissingDataKey x k ∧ decodeMissingDataValue x p.2 = .ok bm ∧
    MissingOk last k bm

/-- The shape of the missing-data index. -/
structure IndexOk (x : Externals) (kv : Kv) (last : UInt64) : Prop where
  prio : ∀ {k bm}, NulFree k.ns → prioAt x kv k = some bm → MissingOk last k bm
  deprio : ∀ {k bm}, NulFree k.ns → deprioAt x kv k = some bm → MissingOk last k bm
  inelg : ∀ {key bs}, kv.lookup key = some bs → key.head? = some inelgMissingDataGroup →
    InelgPair x last (key, bs)
  list : ∀ {bs}, kv.lookup lastUpdatedOldBlocksKey = some bs →
    ∃ blks, bs = encodeLastUpdatedOldBlocksList x blks

inductive ProcOp (x : Externals) (last : UInt64) : BatchOp → Prop where
  | delete (k : MissingDataKey) : ProcOp x last (.delete (encodeInelgMissingDataKey x k))
  | put {k : MissingDataKey} {bs : Bytes} {bm : BitSet} :
      decodeMissingDataValue x bs = .ok bm → MissingOk last k bm →
      ProcOp x last (.put (encodeElgPrioMissingDataKey x k) bs)
  | event {key : Bytes} : key.head? = some collElgKeyPrefix → ProcOp x last (.delete key)

/-- What the eligibility processor remembers between two steps. -/
structure ProcRunOk (x : Externals) (last : UInt64) (r : ProcRun) : Prop where
  events : ∀ p ∈ r.events, p.1.head? = some collElgKeyPrefix
  event : ∀ ev, r.event = some ev → ev.key.head? = some collElgKeyPrefix
  entries : ∀ p ∈ r.entries, InelgPair x last p
  batch : ∀ op ∈ r.batch, ProcOp x last op

def ProcOk (x : Externals) (last : UInt64) (p : ProcState) : Prop :=
  ∀ r, p = .running r → ProcRunOk x last r

/-- The shape of the whole system. -/
structure Sound (x : Externals) (btlPolicy : BtlPolicy) (sys : Sys) : Prop where
  db : DbSound x btlPolicy sys.store
  index : IndexOk x sys.store.missingKeysIndexDB sys.store.lastCommittedBlock
  purges : ∀ n ∈ sys.scheduledPurges, n ≤ sys.store.lastCommittedBlock
  proc : ProcOk x sys.store.lastCommittedBlock sys.proc

section
variable {x : Externals} {btlPolicy : BtlPolicy} {conf : Conf}

theorem DbSound.nulFree {s : Store} (h : DbSound x btlPolicy s) : Store.NulFreeExpiry x s where
  present he hp := (h.present he hp).1
  missing he hm := (h.missing he hm).1

variable {op : Op} {r : ProcRun} {last' : UInt64}

theorem MissingOk.mono {last : UInt64} {k : MissingDataKey} {bm : BitSet}
    (h : MissingOk last k bm) (hle : last ≤ last') : MissingOk last' k bm :=
  ⟨h.ns, h.coll, h.bitmap, UInt64.le_trans h.block hle⟩

theorem InelgPair.mono {last : UInt64} {p : Bytes × Bytes} (h : InelgPair x last p)
    (hle : last ≤ last') : InelgPair x last' p := by
  obtain ⟨k, bm, hkey, hval, hok⟩ := h
  exact ⟨k, bm, hkey, hval, hok.mono hle⟩

theorem ProcOp.mono {last : UInt64} {op : BatchOp} (h : ProcOp x last op)
    (hle : last ≤ last') : ProcOp x last' op := by
  cases h with
  | delete k => exact .delete k
  | put hval hok => exact .put hval (hok.mono hle)
  | event hkey => exact .event hkey

theorem ProcOk.mono {last : UInt64} {p : ProcState} (h : ProcOk x last p)
    (hle : last ≤ last') : ProcOk x last' p := by
  intro r hr
  have hok := h r hr
  exact ⟨hok.events, hok.event, fun p hp => (hok.entries p hp).mono hle,
    fun op hop => (hok.batch op hop).mono hle⟩

/-! ## §3 Changes -/

/-- What an operation can do to the store. -/
inductive StoreChange (x : Externals) (btlPolicy : BtlPolicy) (conf : Conf) :
    Op → Store → Store → Prop where
  | unchanged (op : Op) (s : Store) : StoreChange x btlPolicy conf op s s
  /-- A commit that ends early leaves at most the marker behind. -/
  | marker {n : UInt64} {pvtData : List TxPvtData} {missing : TxMissingPvtDataMap} {s : Store}
      {kv : Kv} : Store.SameIndex s.missingKeysIndexDB kv →
      StoreChange x btlPolicy conf (.commit n pvtData missing) s
        { s with missingKeysIndexDB := kv }
  | committed {n : UInt64} {pvtData : List TxPvtData} {missing : TxMissingPvtDataMap}
      {s s' : Store} {se : StoreEntries} {doc : Option CouchDoc} {pending : PendingPvtData}
      {kv : Kv} {last : UInt64} :
      Store.Committed x btlPolicy conf s s' n pvtData missing se doc pending kv last →
      StoreChange x btlPolicy conf (.commit n pvtData missing) s s'
  | reconciled {blocksPvtData : GoMap UInt64 (List TxPvtData)}
      {unreconciled : MissingPvtDataInfo} {s s' : Store}
      {entries : EntriesForPvtDataOfOldBlocks} {docs : List CouchDoc} {batch : Batch} :
      Store.Reconciled x btlPolicy s s' blocksPvtData unreconciled entries docs batch →
      StoreChange x btlPolicy conf (.commitPvtDataOfOldBlocks blocksPvtData unreconciled) s s'
  | purged {n : UInt64} {s s' : Store} : n ≤ s.lastCommittedBlock →
      Store.Purged x conf n s s' → StoreChange x btlPolicy conf (.purge n) s s'
  | event {b : UInt64} {nsCollMap : CollElgInfo} {val : Bytes} (s : Store) :
      encodeCollElgVal x nsCollMap = .ok val →
      StoreChange x btlPolicy conf (.processCollsEligibilityEnabled b nsCollMap) s
        { s with missingKeysIndexDB :=
            Batch.apply [.put (encodeCollElgKey x b) val] s.missingKeysIndexDB }
  | processor {s : Store} {batch : Batch} :
      (∀ op ∈ batch, ProcOp x s.lastCommittedBlock op) →
      StoreChange x btlPolicy conf .procStep s
        { s with missingKeysIndexDB := batch.apply s.missingKeysIndexDB }
  | reset (s : Store) :
      StoreChange x btlPolicy conf .resetLastUpdatedOldBlocksList s
        s.resetLastUpdatedOldBlocksList
  | reopened {s s' : Store} : s.reopen x conf = .ok s' →
      StoreChange x btlPolicy conf .reopen s s'

/-! ### CouchDB -/

variable {doc : Option CouchDoc} {kv : Kv} {last : UInt64} {missing : TxMissingPvtDataMap}
    {n : UInt64} {pending : PendingPvtData} {pvtData : List TxPvtData} {s s' : Store}
    {se : StoreEntries} {batch : Batch} {blocksPvtData : GoMap UInt64 (List TxPvtData)}
    {docs : List CouchDoc} {entries : EntriesForPvtDataOfOldBlocks}
    {unreconciled : MissingPvtDataInfo} {sys : Sys}

theorem Store.Committed.le
    (h : Committed x btlPolicy conf s s' n pvtData missing se doc pending kv last)
    (hc : CounterOk s) :
    s.lastCommittedBlock ≤ n ∧ (s.empty = false → s.lastCommittedBlock < n) ∧
      n.toNat ≤ 2 ^ 63 := by
  have hnext := h.next
  rw [nextBlockNum] at hnext
  rcases hc with ⟨_, he, hlast⟩ | ⟨rev, hl, he, _⟩
  · rw [he, if_pos rfl] at hnext
    rw [hlast, he, ← hnext]
    exact ⟨UInt64.le_refl 0, nofun, Nat.zero_le _⟩
  · cases hempty : s.empty with
    | true =>
      rw [hempty, if_pos rfl] at hnext
      rw [he hempty, ← hnext]
      exact ⟨UInt64.le_refl 0, nofun, Nat.zero_le _⟩
    | false =>
      rw [hempty, if_neg (by decide)] at hnext
      -- the number could be read back, so it does not wrap around
      rcases lookupLastBlock_of_last hl with ⟨hlt, _⟩ | ⟨_, e, herr⟩
      · have hsucc : n.toNat = s.lastCommittedBlock.toNat + 1 := by
          rw [← hnext, UInt64.toNat_add, UInt64.toNat_one, Nat.mod_eq_of_lt (by omega)]
        have hlt' : s.lastCommittedBlock < n := by
          rw [UInt64.lt_iff_toNat_lt]
          omega
        exact ⟨UInt64.le_of_lt hlt', fun _ => hlt', by omega⟩
      · cases h.lookup.symm.trans herr

/-- A commit writes the document of its block, unless the block has one already. -/
theorem Store.Committed.fresh_or_same
    (h : Committed x btlPolicy conf s s' n pvtData missing se doc pending kv last) :
    s.db.lookup (blockNumberToKey n) = none ∨ ∀ b, blockDoc s'.db b = blockDoc s.db b := by
  cases hl : s.db.lookup (blockNumberToKey n) with
  | none => exact .inl rfl
  | some sd =>
    refine .inr fun b => ?_
    by_cases hb : b = n
    · rw [hb]
      exact blockDoc_congr ((h.blockDoc_conflict hl).trans hl.symm)
    · exact h.blockDoc_of_ne hb

theorem dataAt_congr (h : ∀ b, blockDoc s'.db b = blockDoc s.db b) (k : DataKey) :
    s'.dataAt x k = s.dataAt x k := by
  rw [Store.dataAt, Store.dataAt, h]

theorem expiryAt_congr (h : ∀ b, blockDoc s'.db b = blockDoc s.db b)
    (ek : ExpiryKey) : s'.expiryAt x ek = s.expiryAt x ek := by
  rw [Store.expiryAt, Store.expiryAt, h]

/-- The shape depends on the documents and the counts only. -/
theorem DbSound.congr (h : DbSound x btlPolicy s) (hdb : s'.db = s.db)
    (hcounter : CounterOk s') (hlast : s'.lastCommittedBlock = s.lastCommittedBlock) :
    DbSound x btlPolicy s' where
  dbOk := hdb ▸ h.dbOk
  counter := hcounter
  block_le hd := by
    rw [hdb] at hd
    rw [hlast]
    exact h.block_le hd
  present he hp := h.present (by rwa [expiryAt_congr (s := s)] at he; exact fun _ => by rw [hdb]) hp
  missing he hm := h.missing (by rwa [expiryAt_congr (s := s)] at he; exact fun _ => by rw [hdb]) hm
  policy hk hv := h.policy hk (by rwa [dataAt_congr (s := s)] at hv; exact fun _ => by rw [hdb])

theorem DbSound.committed (h : DbSound x btlPolicy s) (hnul : Store.NulFreeData pvtData)
    (hmiss : Store.NulFreeMissing missing)
    (hcom : Store.Committed x btlPolicy conf s s' n pvtData missing se doc pending kv last) :
    DbSound x btlPolicy s' := by
  have hse := prepareStoreEntries_ok hcom.entries
  have hle := (hcom.le h.counter).1
  have hlast : s'.lastCommittedBlock = n := by rw [hcom.eq]
  have hcounter : CounterOk s' := by
    refine .inr ⟨_, by rw [hlast]; exact hcom.lookup_last, ?_, ?_⟩
    · rw [hcom.eq]
      nofun
    · rw [hlast]
      exact (hcom.le h.counter).2.2
  have hblock : ∀ {b d}, blockDoc s'.db b = some d → b ≤ s'.lastCommittedBlock := by
    intro b d hd
    rw [hlast]
    by_cases hb : b = n
    · rw [hb]; exact UInt64.le_refl n
    · rw [hcom.blockDoc_of_ne hb] at hd
      exact UInt64.le_trans (h.block_le hd) hle
  rcases hcom.fresh_or_same with hfresh | hsame
  · refine ⟨hcom.dbOk h.dbOk hnul, hcounter, hblock, ?_, ?_, ?_⟩
    · intro e b ed ns coll txNum he hp
      by_cases hb : b = n
      · subst hb
        obtain ⟨de, hde, hexp, rfl, rfl, rfl⟩ := (hse.present_iff e ns coll txNum).mp
          ⟨_, (hcom.expiryAt_self hfresh).mp he, rfl, hp⟩
        rw [hse.dataEntries] at hde
        obtain hblk := blkNum_of_mem_prepareDataEntries hde
        exact ⟨hnul.key hde, by rw [← hblk]; exact hexp⟩
      · rw [Store.expiryAt, hcom.blockDoc_of_ne hb] at he
        exact h.present he hp
    · intro e b ed ns coll he hm
      by_cases hb : b = n
      · subst hb
        obtain ⟨k, hk, hexp, rfl, rfl⟩ := (hse.missing_iff e ns coll).mp
          ⟨_, (hcom.expiryAt_self hfresh).mp he, rfl, hm⟩
        rw [hse.elg, hse.inelg, prepareMissingDataEntries_eq] at hk
        have hnames : NulFree k.ns ∧ NulFree k.coll := hk.elim hmiss.key hmiss.key
        have hblk : k.blkNum = b := hk.elim (blkNum_of_missingEntriesOf k)
          (blkNum_of_missingEntriesOf k)
        exact ⟨hnames, by rw [← hblk]; exact hexp⟩
      · rw [Store.expiryAt, hcom.blockDoc_of_ne hb] at he
        exact h.missing he hm
    · intro k v hk hv
      by_cases hb : k.blkNum = n
      · rw [hcom.dataAt_self hfresh hnul hb hk] at hv
        obtain ⟨de, hde, heq⟩ := List.mem_map.mp (GoMap.mem_of_lastValue hv)
        obtain ⟨rfl, -⟩ := Prod.mk.inj heq
        exact hse.policy de hde
      · rw [Store.dataAt, hcom.blockDoc_of_ne hb] at hv
        exact h.policy hk hv
  · refine ⟨hcom.dbOk h.dbOk hnul, hcounter, hblock, ?_, ?_, ?_⟩
    · intro e b ed ns coll txNum he
      exact h.present ((expiryAt_congr hsame _).symm.trans he)
    · intro e b ed ns coll he
      exact h.missing ((expiryAt_congr hsame _).symm.trans he)
    · intro k v hk hv
      exact h.policy hk ((dataAt_congr hsame k).symm.trans hv)

/-- A block that gets data is one of the call's. -/
theorem Store.Reconciled.mem_keys
    (h : Reconciled x btlPolicy s s' blocksPvtData unreconciled entries docs batch) {b : UInt64}
    (hb : Updates entries b) : b ∈ blocksPvtData.keys := by
  obtain ⟨k, v, rfl, hl⟩ := hb
  obtain ⟨b, pvtData, hlb, hde⟩ := mem_dataEntriesOfBlocks.mp (h.data_mem hl)
  rw [show k.blkNum = b from blkNum_of_mem_prepareDataEntries hde, ← AList.mem_keys,
    ← AList.lookup_isSome, hlb]
  rfl

theorem DbSound.reconciled (h : DbSound x btlPolicy s) (hnul : Store.NulFreeBlocks blocksPvtData)
    (hold : ∀ b ∈ blocksPvtData.keys, b ≤ s.lastCommittedBlock)
    (hrec : Store.Reconciled x btlPolicy s s' blocksPvtData unreconciled entries docs batch) :
    DbSound x btlPolicy s' := by
  have hlast : s'.lastCommittedBlock = s.lastCommittedBlock := by rw [hrec.eq]
  have hempty : s'.empty = s.empty := by rw [hrec.eq]
  refine ⟨hrec.dbOk h.dbOk hnul, ?_, ?_, ?_, ?_, ?_⟩
  · rw [CounterOk, hlast, hempty, hrec.lookup_other h.dbOk hnul
      fun b _ => (blockNumberToKey_ne_lastCommittedBlockID b).symm]
    exact h.counter
  · intro b d hd
    rw [hlast]
    by_cases hb : Store.Updates entries b
    · exact hold b (hrec.mem_keys hb)
    · rw [hrec.blockDoc_other h.dbOk hnul hb] at hd
      exact h.block_le hd
  · intro e b ed ns coll txNum he hp
    rw [hrec.expiryAt_eq h.dbOk hnul, Option.or_eq_some_iff] at he
    rcases he with he | ⟨_, he⟩
    · -- an expiry entry of the call is a stored one with one entry of the call added
      obtain ⟨de, hde, old, ⟨hexp, hget⟩, rfl, rfl⟩ := hrec.expirySpec.mem he
      rw [Store.getExpiryDataOfExpiryKey_eq h.dbOk] at hget
      rcases ExpiryData.present_addPresentData.mp hp with hp | ⟨rfl, rfl, rfl⟩
      · exact h.present (Except.ok.inj hget) hp
      · exact ⟨hnul.key hde, hexp⟩
    · exact h.present he hp
  · intro e b ed ns coll he hm
    rw [hrec.expiryAt_eq h.dbOk hnul, Option.or_eq_some_iff] at he
    rcases he with he | ⟨_, he⟩
    · obtain ⟨de, hde, old, ⟨_, hget⟩, rfl, rfl⟩ := hrec.expirySpec.mem he
      rw [Store.getExpiryDataOfExpiryKey_eq h.dbOk] at hget
      exact h.missing (Except.ok.inj hget) (ExpiryData.missing_addPresentData.mp hm)
    · exact h.missing he hm
  · intro k v hk hv
    rw [hrec.dataAt_eq h.dbOk hnul hk, Option.or_eq_some_iff] at hv
    rcases hv with hv | ⟨_, hv⟩
    · obtain ⟨de, _, hacc, rfl, _⟩ := hrec.dataSpec.mem hv
      rcases hacc with hnever | ⟨e, _, hfin⟩
      · exact ⟨_, hnever⟩
      · exact ⟨e, hfin.1.1⟩
    · exact h.policy hk hv

theorem DbSound.purged (h : DbSound x btlPolicy s)
    (hp : Store.Purged x conf n s s') : DbSound x btlPolicy s' := by
  refine ⟨hp.dbOk h.dbOk, ?_, ?_, ?_, ?_, ?_⟩
  · rw [CounterOk, hp.lastCommittedBlock, hp.empty,
      hp.other _ fun b _ => (blockNumberToKey_ne_lastCommittedBlockID b).symm]
    exact h.counter
  · intro b d hd
    rw [hp.lastCommittedBlock]
    by_cases hb : Store.Answers conf s.db n b
    · obtain ⟨d0, _, _, hd0, _⟩ := hp.blockDoc_answered hb
      exact h.block_le hd0
    · rw [hp.blockDoc_other hb] at hd
      exact h.block_le hd
  · intro e b ed ns coll txNum he
    exact h.present (hp.expiryAt_iff.mp he).1
  · intro e b ed ns coll he
    exact h.missing (hp.expiryAt_iff.mp he).1
  · intro k v hk hv
    exact h.policy hk ((hp.dataAt_iff h.nulFree hk).mp hv).1

/-- What opening a store makes of the number in CouchDB. -/
theorem Store.reopen_cases (h : s.reopen x conf = .ok s') :
    ∃ last rev, lookupLastBlock s.db = .ok (last, rev) ∧ s'.db = s.db ∧
      s'.missingKeysIndexDB = s.missingKeysIndexDB ∧ s'.lastCommittedBlock = last ∧
      s'.empty = decide (last = 0) := by
  unfold reopen openStore at h
  split at h
  · split at h
    · cases h
    · rename_i last rev hl
      split at h
      · cases h
      · obtain rfl := Except.ok.inj h
        exact ⟨last, rev, hl, rfl, rfl, rfl, rfl⟩
  · split at h
    · cases h
    · rename_i last rev hl
      obtain rfl := Except.ok.inj h
      exact ⟨last, rev, hl, rfl, rfl, rfl, rfl⟩

/-- The number in CouchDB, as it is read. -/
theorem CounterOk.lookupLastBlock {s : Store} (hc : CounterOk s) :
    (s.lastCommittedBlock.toNat < 2 ^ 63 ∧
        ∃ rev, PvtData.lookupLastBlock s.db = .ok (s.lastCommittedBlock, rev)) ∨
      (s.lastCommittedBlock.toNat = 2 ^ 63 ∧ s.empty = false ∧
        ∃ e, PvtData.lookupLastBlock s.db = .error e) := by
  rcases hc with ⟨hnone, _, h0⟩ | ⟨rev, hdoc, hempty, hbound⟩
  · rw [h0]
    exact .inl ⟨by decide, none, lookupLastBlock_of_none hnone⟩
  · rcases lookupLastBlock_of_last hdoc with ⟨hlt, hok⟩ | ⟨hge, herr⟩
    · exact .inl ⟨hlt, some rev, hok⟩
    · refine .inr ⟨by omega, Bool.eq_false_iff.mpr fun he => ?_, herr⟩
      rw [hempty he] at hge
      cases hge

/-- Reopening keeps the databases and the number of the last block. -/
theorem Store.reopen_ok (hc : CounterOk s) (h : s.reopen x conf = .ok s') :
    s'.db = s.db ∧ s'.missingKeysIndexDB = s.missingKeysIndexDB ∧
      s'.lastCommittedBlock = s.lastCommittedBlock ∧
      s'.empty = decide (s.lastCommittedBlock = 0) := by
  obtain ⟨last, rev, hl, hdb, hkv, hlast, hempty⟩ := reopen_cases h
  rcases hc.lookupLastBlock with ⟨_, rev', hok⟩ | ⟨_, _, e, herr⟩
  · obtain rfl : last = s.lastCommittedBlock :=
      (Prod.mk.inj (Except.ok.inj (hl.symm.trans hok))).1
    exact ⟨hdb, hkv, hlast, hempty⟩
  · cases hl.symm.trans herr

theorem CounterOk.reopened (hc : CounterOk s) (h : s.reopen x conf = .ok s') :
    CounterOk s' := by
  obtain ⟨hdb, _, hlast, hempty⟩ := Store.reopen_ok hc h
  rw [CounterOk, hdb, hlast, hempty]
  rcases hc with ⟨hnone, _, h0⟩ | ⟨rev, hdoc, _, hbound⟩
  · exact .inl ⟨hnone, by simpa using h0, h0⟩
  · exact .inr ⟨rev, hdoc, by simp, hbound⟩

/-- CouchDB keeps its shape, whatever is done. -/
theorem DbSound.change {s' : Store} (h : DbSound x btlPolicy sys.store)
    (hsane : Sane sys op) (hch : StoreChange x btlPolicy conf op sys.store s') :
    DbSound x btlPolicy s' := by
  cases hch with
  | unchanged => exact h
  | marker _ => exact h.congr rfl h.counter rfl
  | committed hcom => exact h.committed hsane.1 hsane.2 hcom
  | reconciled hrec => exact h.reconciled hsane.1 hsane.2.1 hrec
  | purged _ hp => exact h.purged hp
  | event _ _ => exact h.congr rfl h.counter rfl
  | processor _ => exact h.congr rfl h.counter rfl
  | reset _ => exact h.congr rfl h.counter rfl
  | reopened hre =>
    obtain ⟨hdb, _, hlast, _⟩ := Store.reopen_ok h.counter hre
    exact h.congr hdb (h.counter.reopened hre) hlast

/-! ### LevelDB -/

/-- The shape speaks of the missing-data groups and of the list only, and taking
entries away does not harm it. -/
theorem IndexOk.sub {kv kv' : Kv} (h : IndexOk x kv last)
    (hsub : ∀ key bs, kv'.lookup key = some bs →
      ¬ NotMissingKey key ∨ key = lastUpdatedOldBlocksKey → kv.lookup key = some bs) :
    IndexOk x kv' last := by
  have hview : ∀ {encodeKey : MissingDataKey → Bytes} {k : MissingDataKey} {bm : BitSet},
      ¬ NotMissingKey (encodeKey k) →
      view encodeKey (decodeMissingDataValue x) kv' k = some bm →
      view encodeKey (decodeMissingDataValue x) kv k = some bm := by
    intro encodeKey k bm hkey hv
    rw [view, Option.bind_eq_some_iff] at hv ⊢
    obtain ⟨bs, hl, hdec⟩ := hv
    exact ⟨bs, hsub _ bs hl (.inl hkey), hdec⟩
  refine ⟨fun hk hv => h.prio hk (hview ?_ hv), fun hk hv => h.deprio hk (hview ?_ hv), ?_, ?_⟩
  · exact fun hno => hno.ne_prio x _ rfl
  · exact fun hno => hno.ne_deprio x _ rfl
  · intro key bs hl hhead
    refine h.inelg (hsub key bs hl (.inl fun hno => ?_)) hhead
    exact hno inelgMissingDataGroup (by simp) hhead
  · intro bs hl
    exact h.list (hsub _ bs hl (.inr rfl))

theorem IndexOk.mono {last : UInt64} (h : IndexOk x kv last)
    (hle : last ≤ last') : IndexOk x kv last' :=
  ⟨fun hk hv => (h.prio hk hv).mono hle, fun hk hv => (h.deprio hk hv).mono hle,
    fun hl hhead => (h.inelg hl hhead).mono hle, h.list⟩

theorem IndexOk.sameIndex {kv kv' : Kv} (h : IndexOk x kv last)
    (hsame : Store.SameIndex kv kv') : IndexOk x kv' last := by
  refine h.sub fun key bs hl hkey => ?_
  rwa [← hsame key]
  rintro rfl
  rcases hkey with hno | hlist
  · exact hno notMissingKey_pending
  · exact absurd hlist (by decide)

theorem IndexOk.event {last b : UInt64} (h : IndexOk x kv last) (val : Bytes) :
    IndexOk x (Batch.apply [.put (encodeCollElgKey x b) val] kv) last := by
  refine h.sub fun key bs hl hkey => ?_
  have hput : (Batch.apply [.put (encodeCollElgKey x b) val] kv).lookup key =
      if key = encodeCollElgKey x b then some val else kv.lookup key :=
    GoMap.lookup_insert_eq kv (encodeCollElgKey x b) key val
  rwa [hput, if_neg] at hl
  rintro rfl
  rcases hkey with hno | hlist
  · exact hno (notMissingKey_collElg x b)
  · exact absurd (List.cons.inj hlist).1 (by decide)

theorem IndexOk.reset {s : Store} (h : IndexOk x s.missingKeysIndexDB s.lastCommittedBlock) :
    IndexOk x s.resetLastUpdatedOldBlocksList.missingKeysIndexDB s.lastCommittedBlock := by
  refine h.sub fun key bs hl _ => ?_
  have herase : s.resetLastUpdatedOldBlocksList.missingKeysIndexDB.lookup key =
      if key = lastUpdatedOldBlocksKey then none else s.missingKeysIndexDB.lookup key :=
    GoMap.lookup_erase_eq s.missingKeysIndexDB lastUpdatedOldBlocksKey key
  rw [herase] at hl
  split at hl
  · cases hl
  · exact hl

theorem IndexOk.purged
    (h : IndexOk x s.missingKeysIndexDB s.lastCommittedBlock) (hp : Store.Purged x conf n s s') :
    IndexOk x s'.missingKeysIndexDB s'.lastCommittedBlock := by
  rw [hp.lastCommittedBlock]
  exact h.sub fun key bs hl _ => ((hp.index key bs).mp hl).1

/-- The new bitmaps of a commit. -/
theorem missingOk_of_lookup {elg : Bool}
    (hnul : Store.NulFreeMissing missing) {k : MissingDataKey} {bm : BitSet}
    (hl : (missingEntriesOf n elg (missingReports missing) ∅).lookup k = some bm) :
    MissingOk n k bm := by
  have hmem : k ∈ missingEntriesOf n elg (missingReports missing) ∅ := by
    rw [← AList.lookup_isSome, hl]
    rfl
  obtain ⟨hns, hcoll⟩ := hnul.key hmem
  refine ⟨hns, hcoll, noneEmpty_missingEntriesOf n elg _ k bm hl, ?_⟩
  rw [blkNum_of_missingEntriesOf k hmem]
  exact UInt64.le_refl n

theorem IndexOk.committed
    (h : IndexOk x s.missingKeysIndexDB s.lastCommittedBlock) (hc : CounterOk s)
    (hmiss : Store.NulFreeMissing missing)
    (hcom : Store.Committed x btlPolicy conf s s' n pvtData missing se doc pending kv last) :
    IndexOk x s'.missingKeysIndexDB s'.lastCommittedBlock := by
  have hold := h.mono (hcom.le hc).1
  have hse := prepareStoreEntries_ok hcom.entries
  have helg := hse.elg
  have hinelg := hse.inelg
  rw [prepareMissingDataEntries_eq] at helg hinelg
  rw [show s'.lastCommittedBlock = n by rw [hcom.eq]]
  refine ⟨?_, ?_, ?_, ?_⟩
  · intro k bm hk hv
    rw [hcom.prioAt_eq hmiss hk, Option.or_eq_some_iff, helg] at hv
    rcases hv with hnew | ⟨_, hv⟩
    · exact missingOk_of_lookup hmiss hnew
    · exact hold.prio hk hv
  · intro k bm hk hv
    rw [hcom.deprioAt_eq] at hv
    exact hold.deprio hk hv
  · intro key bs hl hhead
    rw [hcom.index_eq key (by rintro rfl; cases hhead), Option.or_eq_some_iff,
      Option.or_eq_some_iff] at hl
    rcases hl with hnew | ⟨_, hnew | ⟨_, hl⟩⟩
    · obtain ⟨k, bm, hlk, hkey, hval⟩ := Store.mem_pending hcom.pendingFor.inelg hnew
      rw [hinelg] at hlk
      exact ⟨k, bm, hkey, hval, missingOk_of_lookup hmiss hlk⟩
    · obtain ⟨k, _, _, rfl, _⟩ := Store.mem_pending hcom.pendingFor.elg hnew
      exact absurd (Option.some.inj hhead) (by decide)
    · exact hold.inelg hl hhead
  · intro bs hl
    rw [hcom.lookup_index notMissingKey_lastUpdated (by decide)] at hl
    exact hold.list hl

/-- The bitmaps of a reconciliation are for keys that have one. -/
theorem Store.Reconciled.touched
    (h : Reconciled x btlPolicy s s' blocksPvtData unreconciled entries docs batch)
    (hnul : NulFreeBlocks blocksPvtData) (hinfo : NulFreeInfo unreconciled) :
    Touched x s.missingKeysIndexDB (fun k => NulFree k.ns) entries := by
  obtain ⟨e1, e2, h1, h2, h3⟩ := oldBlockEntries_ok h.entries_eq
  obtain ⟨hprio, hdeprio⟩ := missing_of_forEach h1
  have hstart : Touched x s.missingKeysIndexDB (fun k => NulFree k.ns) e1 := by
    refine ⟨fun hl => ?_, fun hl => ?_⟩
    · rw [hprio] at hl
      cases hl
    · rw [hdeprio] at hl
      cases hl
  refine (hstart.reflectReconciledData_loop (fun dk hdk => ?_) h2).reflectPriority_loop hinfo h3
  rw [← AList.mem_keys, ← AList.lookup_isSome] at hdk
  obtain ⟨v, hv⟩ := Option.isSome_iff_exists.mp hdk
  obtain ⟨de, hde, _, rfl, _⟩ := (dataSpec_of_forEach h1).mem hv
  exact hnul.key hde

theorem IndexOk.reconciled (h : IndexOk x s.missingKeysIndexDB s.lastCommittedBlock)
    (hnul : Store.NulFreeBlocks blocksPvtData) (hinfo : NulFreeInfo unreconciled)
    (hrec : Store.Reconciled x btlPolicy s s' blocksPvtData unreconciled entries docs batch) :
    IndexOk x s'.missingKeysIndexDB s'.lastCommittedBlock := by
  have htouched := hrec.touched hnul hinfo
  rw [show s'.lastCommittedBlock = s.lastCommittedBlock by rw [hrec.eq]]
  -- a bitmap that is stored again is not empty, and its key had one before
  have hsettle : ∀ {k : MissingDataKey} {b bm : BitSet}, NulFree k.ns →
      prioAt x s.missingKeysIndexDB k ≠ none ∨ deprioAt x s.missingKeysIndexDB k ≠ none →
      Store.settle (some b) = some bm → MissingOk s.lastCommittedBlock k bm := by
    intro k b bm hk hold hset
    obtain ⟨b', hb', hnone⟩ := Store.settle_ne_none (o := some b) (by rw [hset]; exact nofun)
    obtain rfl := Option.some.inj hb'
    obtain rfl : b = bm := by simpa [Store.settle, Option.filter, hnone] using hset
    rcases hold with hold | hold
    · obtain ⟨bm0, hbm0⟩ := Option.ne_none_iff_exists'.mp hold
      have hok := h.prio hk hbm0
      exact ⟨hk, hok.coll, hnone, hok.block⟩
    · obtain ⟨bm0, hbm0⟩ := Option.ne_none_iff_exists'.mp hold
      have hok := h.deprio hk hbm0
      exact ⟨hk, hok.coll, hnone, hok.block⟩
  refine ⟨?_, ?_, ?_, ?_⟩
  · intro k bm hk hv
    rw [hrec.prioAt_eq hk fun hl => (htouched.prio hl).1] at hv
    split at hv
    · rename_i b hl
      exact hsettle hk (.inl (htouched.prio hl).2) hv
    · exact h.prio hk hv
  · intro k bm hk hv
    rw [hrec.deprioAt_eq hk fun hl => (htouched.deprio hl).1] at hv
    split at hv
    · rename_i b hl
      exact hsettle hk (htouched.deprio hl).2 hv
    · exact h.deprio hk hv
  · intro key bs hl hhead
    rw [hrec.lookup_index] at hl
    · exact h.inelg hl hhead
    · rintro rfl
      exact absurd (Option.some.inj hhead) (by decide)
    · rintro k rfl
      exact absurd (Option.some.inj hhead) (by decide)
    · rintro k rfl
      exact absurd (Option.some.inj hhead) (by decide)
  · intro bs hl
    rw [hrec.lookup_lastUpdated] at hl
    exact ⟨_, (Option.some.inj hl).symm⟩

theorem IndexOk.processor (h : IndexOk x kv last)
    (hbatch : ∀ op ∈ batch, ProcOp x last op) : IndexOk x (batch.apply kv) last := by
  -- a key the processor does not put keeps its value or goes
  have hkeep : ∀ {key bs}, (∀ k, key ≠ encodeElgPrioMissingDataKey x k) →
      (batch.apply kv).lookup key = some bs → kv.lookup key = some bs := by
    intro key bs hkey hl
    rw [Batch.lookup_apply] at hl
    cases hw : Batch.lastWrite key batch with
    | none => rwa [hw, Option.getD_none] at hl
    | some r =>
      rw [hw, Option.getD_some] at hl
      obtain ⟨op, hop, hopkey, rfl⟩ := Batch.mem_of_lastWrite hw
      cases hbatch op hop with
      | delete k => cases hl
      | put _ _ => exact absurd hopkey.symm (hkey _)
      | event _ => cases hl
  refine ⟨?_, ?_, ?_, ?_⟩
  · intro k bm hk hv
    rw [prioAt, view, Batch.lookup_apply] at hv
    cases hw : Batch.lastWrite (encodeElgPrioMissingDataKey x k) batch with
    | none =>
      rw [hw, Option.getD_none] at hv
      exact h.prio hk hv
    | some r =>
      rw [hw, Option.getD_some] at hv
      obtain ⟨op, hop, hopkey, rfl⟩ := Batch.mem_of_lastWrite hw
      cases hbatch op hop with
      | delete k' => cases hv
      | event _ => cases hv
      | put hval hok =>
        obtain rfl := (encodeElgMissingDataKey_injective x hok.ns hk hopkey).2
        simp only [BatchOp.result, Option.bind_some, hval, Except.toOption,
          Option.some.injEq] at hv
        exact hv ▸ hok
  · intro k bm hk hv
    rw [deprioAt, view, Option.bind_eq_some_iff] at hv
    obtain ⟨bs, hl, hdec⟩ := hv
    refine h.deprio hk (?_ : deprioAt x kv k = some bm)
    rw [deprioAt, view, hkeep (fun k' he => prio_ne_deprio x k' k he.symm) hl, Option.bind_some,
      hdec]
  · intro key bs hl hhead
    refine h.inelg (hkeep ?_ hl) hhead
    rintro k rfl
    exact absurd (Option.some.inj hhead) (by decide)
  · intro bs hl
    exact h.list (hkeep (fun k he => notMissingKey_lastUpdated.ne_prio x k he) hl)

/-- LevelDB keeps its shape, whatever is done. -/
theorem IndexOk.change {s' : Store}
    (h : IndexOk x sys.store.missingKeysIndexDB sys.store.lastCommittedBlock)
    (hc : CounterOk sys.store) (hsane : Sane sys op)
    (hch : StoreChange x btlPolicy conf op sys.store s') :
    IndexOk x s'.missingKeysIndexDB s'.lastCommittedBlock := by
  cases hch with
  | unchanged => exact h
  | marker hsame => exact h.sameIndex hsame
  | committed hcom => exact h.committed hc hsane.2 hcom
  | reconciled hrec => exact h.reconciled hsane.1 hsane.2.2 hrec
  | purged _ hp => exact h.purged hp
  | event _ _ => exact h.event _
  | processor hbatch => exact h.processor hbatch
  | reset _ => exact h.reset
  | reopened hre =>
    obtain ⟨_, hkv, hlast, _⟩ := Store.reopen_ok hc hre
    rw [hkv, hlast]
    exact h

/-! ### The processor -/

/-- Everything the processor's scan finds is an ineligible entry. -/
theorem IndexOk.scan (h : IndexOk x kv last) (blkNum : UInt64) (ns coll : GoString) :
    ∀ p ∈ scan kv (createRangeScanKeysForInelgMissingData x blkNum ns coll).1
      (createRangeScanKeysForInelgMissingData x blkNum ns coll).2, InelgPair x last p := by
  rintro ⟨key, bs⟩ hp
  obtain ⟨hl, hle, hlt⟩ := mem_scan.mp hp
  -- both ends of the range are in the ineligible group
  obtain ⟨t, rfl⟩ : [inelgMissingDataGroup] <+: key := prefix_of_between hle hlt
  exact h.inelg hl rfl

theorem procRunOk_start (kv : Kv) (last : UInt64) :
    ProcRunOk x last (ProcRun.start x kv) where
  events := by
    rintro ⟨key, bs⟩ hp
    obtain ⟨_, hle, hlt⟩ := mem_scan.mp hp
    obtain ⟨t, rfl⟩ : [collElgKeyPrefix] <+: key := prefix_of_between hle hlt
    rfl
  event := nofun
  entries := nofun
  batch := nofun

theorem ProcRunOk.convert (h : ProcRunOk x last r)
    (maxBatchSize : Nat) {entry : Bytes × Bytes} {rest : List (Bytes × Bytes)}
    (hr : r.entries = entry :: rest) :
    ∃ batch : Batch, (r.convert x maxBatchSize kv entry rest).1 = batch.apply kv ∧
      (∀ op ∈ batch, ProcOp x last op) ∧
      ProcOk x last (r.convert x maxBatchSize kv entry rest).2 := by
  have hentries := h.entries
  rw [hr, List.forall_mem_cons] at hentries
  obtain ⟨⟨k, bm, hkey, hval, hok⟩, hrest⟩ := hentries
  have hbatch : ∀ op ∈ r.batch ++
      [.delete entry.1, .put (encodeElgPrioMissingDataKey x k) entry.2], ProcOp x last op := by
    intro op hop
    rcases List.mem_append.mp hop with hop | hop
    · exact h.batch op hop
    · rcases List.mem_cons.mp hop with rfl | hop
      · rw [hkey]
        exact .delete k
      · obtain rfl := List.mem_singleton.mp hop
        exact .put hval hok
  rw [ProcRun.convert, hkey, decodeInelgMissingDataKey_encode x hok.ns hok.coll, ← hkey]
  simp only
  split
  · refine ⟨_, rfl, hbatch, ?_⟩
    rintro _ ⟨⟩
    exact ⟨h.events, h.event, hrest, nofun⟩
  · refine ⟨[], rfl, nofun, ?_⟩
    rintro _ ⟨⟩
    exact ⟨h.events, h.event, hrest, hbatch⟩

theorem ProcRunOk.nextEvent (h : ProcRunOk x last r)
    {ev : Bytes × Bytes} {rest : List (Bytes × Bytes)} (hr : r.events = ev :: rest) :
    (r.nextEvent x kv ev rest).1 = kv ∧ ProcOk x last (r.nextEvent x kv ev rest).2 := by
  have hevents := h.events
  rw [hr, List.forall_mem_cons] at hevents
  unfold ProcRun.nextEvent
  split
  · exact ⟨rfl, nofun⟩
  · split
    · refine ⟨rfl, ?_⟩
      rintro _ ⟨⟩
      exact ⟨hevents.2, h.event, h.entries, h.batch⟩
    · refine ⟨rfl, ?_⟩
      rintro _ ⟨⟩
      refine ⟨hevents.2, ?_, h.entries, h.batch⟩
      rintro _ ⟨⟩
      exact hevents.1

/-- One step of the processor writes a batch of its own kind, or nothing. -/
theorem ProcRunOk.step (h : ProcRunOk x last r) (hidx : IndexOk x kv last) (maxBatchSize : Nat) :
    ∃ batch : Batch, (r.step x maxBatchSize kv).1 = batch.apply kv ∧
      (∀ op ∈ batch, ProcOp x last op) ∧ ProcOk x last (r.step x maxBatchSize kv).2 := by
  unfold ProcRun.step
  split
  · rename_i entry rest hr
    exact h.convert maxBatchSize hr
  · rename_i hentries
    split
    · rename_i key blkNum ns coll colls hev
      refine ⟨[], rfl, nofun, ?_⟩
      rintro _ ⟨⟩
      refine ⟨h.events, ?_, hidx.scan blkNum ns coll, h.batch⟩
      rintro _ ⟨⟩
      have hkey := h.event _ hev
      exact hkey
    · rename_i key blkNum hev
      refine ⟨[], rfl, nofun, ?_⟩
      rintro _ ⟨⟩
      refine ⟨h.events, nofun, h.entries, fun op hop => ?_⟩
      rcases List.mem_append.mp hop with hop | hop
      · exact h.batch op hop
      · obtain rfl := List.mem_singleton.mp hop
        exact .event (h.event _ hev)
    · split
      · rename_i ev rest hr
        exact ⟨[], (h.nextEvent hr).1, nofun, (h.nextEvent hr).2⟩
      · exact ⟨r.batch, rfl, h.batch, nofun⟩

/-! ## §4 Runs -/

/-- What an operation does to the store. -/
theorem Sound.change (h : Sound x btlPolicy sys) (op : Op) :
    StoreChange x btlPolicy conf op sys.store (sys.step x btlPolicy conf op).store := by
  cases op with
  | commit n pvtData missing =>
    simp only [Sys.step, Sys.commit]
    cases hc : sys.store.commit x btlPolicy conf n pvtData missing with
    | mk s' r =>
      rcases Store.commit_cases hc with ⟨e, kv, rfl, hsame, rfl⟩ | ⟨rfl, _, _, _, _, _, hcom⟩
      · exact .marker hsame
      · exact .committed hcom
  | commitPvtDataOfOldBlocks blocks unreconciled =>
    simp only [Sys.step]
    split
    · exact .unchanged _ _
    · cases hc : sys.store.commitPvtDataOfOldBlocks x btlPolicy blocks unreconciled with
      | mk s' r =>
        rcases Store.commitPvtDataOfOldBlocks_cases hc with ⟨_, rfl⟩ | ⟨_, _, _, _, hrec⟩
        · exact .unchanged _ _
        · exact .reconciled hrec
  | purge n =>
    simp only [Sys.step, Sys.purge]
    split
    · exact .unchanged _ _
    · rename_i hgo
      rw [Bool.or_eq_true, not_or, Bool.not_eq_true', Bool.not_eq_false,
        List.contains_iff_mem] at hgo
      obtain ⟨s', heq, hp⟩ : ∃ s', sys.store.purgeExpiredData x conf n = (s', .ok ()) ∧
          Store.Purged x conf n sys.store s' := Store.purgeExpiredData_ok h.db.dbOk
      rw [heq]
      exact .purged (h.purges n hgo.2) hp
  | processCollsEligibilityEnabled b nsCollMap =>
    simp only [Sys.step, processCollsEligibilityEnabled]
    cases hval : encodeCollElgVal x nsCollMap with
    | error e => exact .unchanged _ _
    | ok val => exact .event sys.store hval
  | procStart =>
    simp only [Sys.step]
    split <;> exact .unchanged _ _
  | procStep =>
    simp only [Sys.step, Sys.procStep]
    split
    · rename_i r hr
      split
      · exact .unchanged _ _
      · obtain ⟨batch, heq, hbatch, _⟩ := (h.proc r hr).step h.index conf.maxBatchSize
        rw [heq]
        exact .processor hbatch
    · exact .unchanged _ _
  | procWake =>
    simp only [Sys.step]
    split <;> exact .unchanged _ _
  | resetLastUpdatedOldBlocksList => exact .reset sys.store
  | reopen =>
    simp only [Sys.step]
    split
    · exact .unchanged _ _
    · rename_i s' hre
      exact .reopened hre

/-- The last block does not go back. -/
theorem StoreChange.le (hch : StoreChange x btlPolicy conf op s s')
    (hc : CounterOk s) : s.lastCommittedBlock ≤ s'.lastCommittedBlock := by
  cases hch with
  | committed hcom =>
    rw [hcom.eq]
    exact (hcom.le hc).1
  | reconciled hrec =>
    rw [hrec.eq]
    exact UInt64.le_refl _
  | purged _ hp =>
    rw [hp.lastCommittedBlock]
    exact UInt64.le_refl _
  | reopened hre =>
    rw [(Store.reopen_ok hc hre).2.2.1]
    exact UInt64.le_refl _
  | _ => exact UInt64.le_refl _

/-- The scheduled purges after a step: some of the old ones, and the block just
committed. -/
theorem mem_scheduledPurges (hn : n ∈ (sys.step x btlPolicy conf op).scheduledPurges) :
    n ∈ sys.scheduledPurges ∨
      n = (sys.step x btlPolicy conf op).store.lastCommittedBlock := by
  cases op with
  | commit b pvtData missing =>
    simp only [Sys.step, Sys.commit] at hn ⊢
    cases hc : sys.store.commit x btlPolicy conf b pvtData missing with
    | mk s' r =>
      rcases Store.commit_cases hc with ⟨e, kv, rfl, _, rfl⟩ | ⟨rfl, _, _, _, _, _, hcom⟩
      · rw [hc] at hn
        exact .inl hn
      · rw [hc] at hn
        simp only at hn
        split at hn
        · rcases List.mem_append.mp hn with hn | hn
          · exact .inl hn
          · obtain rfl := List.mem_singleton.mp hn
            rw [hcom.eq]
            exact .inr rfl
        · exact .inl hn
  | purge b =>
    simp only [Sys.step, Sys.purge] at hn
    split at hn
    · exact .inl hn
    · exact .inl (List.mem_of_mem_erase hn)
  | commitPvtDataOfOldBlocks _ _ =>
    simp only [Sys.step] at hn
    split at hn <;> exact .inl hn
  | processCollsEligibilityEnabled _ _ =>
    simp only [Sys.step] at hn
    split at hn <;> exact .inl hn
  | procStart =>
    simp only [Sys.step] at hn
    split at hn <;> exact .inl hn
  | procStep =>
    simp only [Sys.step, Sys.procStep] at hn
    split at hn
    · split at hn <;> exact .inl hn
    · exact .inl hn
  | procWake =>
    simp only [Sys.step] at hn
    split at hn <;> exact .inl hn
  | resetLastUpdatedOldBlocksList => exact .inl hn
  | reopen =>
    simp only [Sys.step] at hn
    split at hn
    · exact .inl hn
    · cases hn

/-- The processor after a step. -/
theorem Sound.procOk (h : Sound x btlPolicy sys) (op : Op) :
    ProcOk x sys.store.lastCommittedBlock (sys.step x btlPolicy conf op).proc := by
  cases op with
  | commit b pvtData missing =>
    simp only [Sys.step, Sys.commit]
    split <;> exact h.proc
  | purge b =>
    simp only [Sys.step, Sys.purge]
    split <;> exact h.proc
  | commitPvtDataOfOldBlocks _ _ =>
    simp only [Sys.step]
    split <;> exact h.proc
  | processCollsEligibilityEnabled _ _ =>
    simp only [Sys.step]
    split <;> exact h.proc
  | procStart =>
    simp only [Sys.step]
    split
    · rintro _ ⟨⟩
      exact procRunOk_start _ _
    · exact h.proc
  | procStep =>
    simp only [Sys.step, Sys.procStep]
    split
    · rename_i r hr
      split
      · exact h.proc
      · obtain ⟨_, _, _, hproc⟩ := (h.proc r hr).step h.index conf.maxBatchSize
        exact hproc
    · exact h.proc
  | procWake =>
    simp only [Sys.step]
    split
    · rename_i r hr
      rintro _ ⟨⟩
      have hok := h.proc r hr
      exact ⟨hok.events, hok.event, hok.entries, hok.batch⟩
    · exact h.proc
  | resetLastUpdatedOldBlocksList => exact h.proc
  | reopen =>
    simp only [Sys.step]
    split
    · exact h.proc
    · exact nofun

/-- A step keeps the shape. -/
theorem Sound.step (h : Sound x btlPolicy sys) (hsane : Sane sys op) :
    Sound x btlPolicy (sys.step x btlPolicy conf op) := by
  have hch : StoreChange x btlPolicy conf op sys.store (sys.step x btlPolicy conf op).store :=
    h.change op
  have hle := hch.le h.db.counter
  refine ⟨h.db.change hsane hch, h.index.change h.db.counter hsane hch, fun n hn => ?_,
    (h.procOk op).mono hle⟩
  rcases mem_scheduledPurges hn with hn | rfl
  · exact UInt64.le_trans (h.purges n hn) hle
  · exact UInt64.le_refl _

theorem sound_init : Sound x btlPolicy Sys.init := by
  have hdoc : ∀ b, blockDoc Store.new.db b = none := fun _ => rfl
  refine ⟨⟨DbOk.empty, .inl ⟨rfl, rfl, rfl⟩, ?_, ?_, ?_, ?_⟩, ⟨?_, ?_, ?_, ?_⟩, nofun, nofun⟩
  · intro b d hd
    cases (hdoc b).symm.trans hd
  · intro e b ed ns coll txNum he
    cases he
  · intro e b ed ns coll he
    cases he
  · intro k v _ hv
    cases hv
  · intro k bm _ hv
    cases hv
  · intro k bm _ hv
    cases hv
  · intro key bs hl
    cases hl
  · intro bs hl
    cases hl

/-- Every run with the promised inputs keeps the shape. -/
theorem sound_after {ops : List Op}
    (h : Meets (Sys.step x btlPolicy conf) Sane Sys.init ops) :
    Sound x btlPolicy (Sys.after x btlPolicy conf ops) :=
  run_invariant (fun _ _ hs hok => hs.step hok) sound_init h

end

end FabricPeerExt.PvtData
