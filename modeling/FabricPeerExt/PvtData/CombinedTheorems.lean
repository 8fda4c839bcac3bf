/-
FabricPeerExt.PvtData.CombinedTheorems — the two block counts of the combined store, that of the
cache and that of the database.
-/
import FabricPeerExt.PvtData.Combined
import FabricPeerExt.PvtData.CommitTheorems
import FabricPeerExt.PvtData.Instance

namespace FabricPeerExt.PvtData

open Lib

section
variable {x : Externals} {btlPolicy : BtlPolicy} {conf : Conf}

/-! ## §1 A failed commit -/

/-- The cache takes the block it expects, and expects the next one afterwards. -/
theorem CachedStore.commit_ok {s s' : CachedStore} {n : UInt64} {pvtData : List TxPvtData}
    {missing : TxMissingPvtDataMap}
    (h : s.commit btlPolicy conf n pvtData missing = (s', .ok ())) :
    conf.committer = true ∧ s.nextBlockNum = n ∧ s'.lastCommittedBlock = n ∧ s'.empty = false ∧
      ∃ se, prepareStoreEntries btlPolicy n pvtData missing = .ok se ∧
        s'.cache = if se.dataEntries.isEmpty then s.cache
          else s.cache.insert n se.dataEntries := by
  unfold CachedStore.commit at h
  split at h
  · cases (Prod.mk.inj h).2
  rename_i hc
  simp only at h
  split at h
  · cases (Prod.mk.inj h).2
  rename_i hnext
  obtain rfl := not_not.mp hnext
  split at h
  · cases (Prod.mk.inj h).2
  rename_i se hse
  obtain ⟨rfl, _⟩ := Prod.mk.inj h
  exact ⟨by simpa using hc, rfl, rfl, rfl, se, hse, rfl⟩

/-- A block the cache does not expect is refused. -/
theorem CachedStore.commit_error {s : CachedStore} {n : UInt64} (h : s.nextBlockNum ≠ n)
    (pvtData : List TxPvtData) (missing : TxMissingPvtDataMap) :
    ∃ e, s.commit btlPolicy conf n pvtData missing = (s, .error e) := by
  unfold CachedStore.commit
  split
  · exact ⟨_, rfl⟩
  · simp only [if_pos h]
    exact ⟨_, rfl⟩

namespace PvtDataStore

/-- A commit in which the cache succeeds and the database fails. -/
def DbWriteFails (x : Externals) (btlPolicy : BtlPolicy) (conf : Conf)
    (fault : Option CommitFault) (c : PvtDataStore) (n : UInt64) (pvtData : List TxPvtData)
    (missing : TxMissingPvtDataMap) : Prop :=
  (c.cachePvtDataStore.commit btlPolicy conf n pvtData missing).2 = .ok () ∧
    (c.pvtDataDBStore.commitWith x btlPolicy conf fault n pvtData missing).2 ≠ .ok ()

/-- After a commit the height is the old one, and the same commit now succeeds. -/
def RetrySucceeds (x : Externals) (btlPolicy : BtlPolicy) (conf : Conf)
    (fault : Option CommitFault) (c : PvtDataStore) (n : UInt64) (pvtData : List TxPvtData)
    (missing : TxMissingPvtDataMap) : Prop :=
  let c' := (c.commitWith x btlPolicy conf fault n pvtData missing).1
  c'.lastCommittedBlockHeight = c.lastCommittedBlockHeight ∧
    (c'.commit x btlPolicy conf n pvtData missing).2 = .ok ()

/-- No commit can be repeated after the database has failed: the cache already expects
the next block. -/
theorem retry_after_failed_commit (fault : Option CommitFault) (c : PvtDataStore) (n : UInt64)
    (pvtData : List TxPvtData) (missing : TxMissingPvtDataMap)
    (h : DbWriteFails x btlPolicy conf fault c n pvtData missing) :
    ¬ RetrySucceeds x btlPolicy conf fault c n pvtData missing := by
  rintro ⟨_, hretry⟩
  obtain ⟨hok, _⟩ := h
  cases hc : c.cachePvtDataStore.commit btlPolicy conf n pvtData missing with
  | mk cache r =>
    rw [hc] at hok
    obtain rfl : r = .ok () := hok
    obtain ⟨_, _, hlast, hempty, _⟩ := CachedStore.commit_ok hc
    -- the next block is not this one, also where the number wraps around
    have hnext : cache.nextBlockNum ≠ n := by
      rw [CachedStore.nextBlockNum, hempty, hlast]
      simp
    obtain ⟨e, he⟩ : ∃ e, cache.commit btlPolicy conf n pvtData missing = (cache, .error e) :=
      CachedStore.commit_error hnext pvtData missing
    rw [commitWith, hc] at hretry
    simp only [commit, commitWith, he] at hretry
    cases hretry

def unwritableIndex : Option CommitFault := some (.writeBatch (.plain "no space left on device"))

/-- The index cannot be written for block 1. -/
theorem retry_of_second_block_fails :
    let c := (PvtDataStore.new.commit plainExternals (lifetimePolicy fun _ _ => 0) plainConf
      0 [] ∅).1
    DbWriteFails plainExternals (lifetimePolicy fun _ _ => 0) plainConf unwritableIndex c 1 [] ∅ ∧
      ¬ RetrySucceeds plainExternals (lifetimePolicy fun _ _ => 0) plainConf unwritableIndex
        c 1 [] ∅ := by
  intro c
  have h : DbWriteFails plainExternals (lifetimePolicy fun _ _ => 0) plainConf unwritableIndex
      c 1 [] ∅ := by
    unfold DbWriteFails
    decide +kernel
  exact ⟨h, retry_after_failed_commit _ _ _ _ _ h⟩

def unreachableCouchDB : Option CommitFault :=
  some (.bulkRequest (fun _ => false) (.plain "connection refused"))

/-- On a new store: the first block meets a database that does not answer, and is
refused when it is committed again. -/
theorem first_block_refused_after_fault :
    DbWriteFails plainExternals (lifetimePolicy fun _ _ => 0) plainConf unreachableCouchDB
        PvtDataStore.new 0 [] ∅ ∧
      ¬ RetrySucceeds plainExternals (lifetimePolicy fun _ _ => 0) plainConf unreachableCouchDB
        PvtDataStore.new 0 [] ∅ := by
  unfold DbWriteFails RetrySucceeds
  decide +kernel

/-! ## §2 Reopening -/

/-- Blocks 0 to `k - 1` were committed to a new store, one after the other. -/
inductive BlocksCommitted (x : Externals) (btlPolicy : BtlPolicy) (conf : Conf) :
    Nat → PvtDataStore → Prop where
  | new : BlocksCommitted x btlPolicy conf 0 PvtDataStore.new
  | commit {k : Nat} {c c' : PvtDataStore} {pvtData : List TxPvtData}
      {missing : TxMissingPvtDataMap} : BlocksCommitted x btlPolicy conf k c →
      c.commit x btlPolicy conf (UInt64.ofNat k) pvtData missing = (c', .ok ()) →
      BlocksCommitted x btlPolicy conf (k + 1) c'

/-- The store takes block `k` next and no other. -/
def AcceptsExactly (x : Externals) (btlPolicy : BtlPolicy) (conf : Conf) (k : Nat)
    (c : PvtDataStore) : Prop :=
  (∀ n pvtData missing, (c.commit x btlPolicy conf n pvtData missing).2 = .ok () →
      n.toNat = k) ∧
    (c.commit x btlPolicy conf (UInt64.ofNat k) [] ∅).2 = .ok ()

/-- Blocks 0 to `k - 1` can be committed, and reopening the store then gives the height,
the emptiness and the next block as they were. -/
def Reopens (x : Externals) (btlPolicy : BtlPolicy) (conf : Conf) (k : Nat) : Prop :=
  (∃ c, BlocksCommitted x btlPolicy conf k c) ∧
    ∀ c, BlocksCommitted x btlPolicy conf k c → ∃ c', c.reopen x conf = .ok c' ∧
      c'.lastCommittedBlockHeight.toNat = k ∧
      c'.pvtDataDBStore.empty = c.pvtDataDBStore.empty ∧ AcceptsExactly x btlPolicy conf k c'

structure Counts (k : Nat) (c : PvtDataStore) : Prop where
  db_next : c.pvtDataDBStore.nextBlockNum.toNat = k
  cache_next : c.cachePvtDataStore.nextBlockNum.toNat = k
  empty_iff : c.pvtDataDBStore.empty = true ↔ k = 0
  /-- The persisted number is that of the last block. -/
  persisted : match k with
    | 0 => c.pvtDataDBStore.db.lookup lastCommittedBlockID = none
    | m + 1 => ∃ rev n, n.toNat = m ∧ c.pvtDataDBStore.db.lookup lastCommittedBlockID =
        some ⟨rev, .lastCommittedBlock (formatUint n)⟩
  list : c.pvtDataDBStore.missingKeysIndexDB.lookup lastUpdatedOldBlocksKey = none

variable {k : Nat} {rev : Option Nat} {n : UInt64}

theorem commit_ok {c c' : PvtDataStore} {pvtData : List TxPvtData} {missing : TxMissingPvtDataMap}
    (h : c.commit x btlPolicy conf n pvtData missing = (c', .ok ())) :
    c.cachePvtDataStore.commit btlPolicy conf n pvtData missing =
        (c'.cachePvtDataStore, .ok ()) ∧
      c.pvtDataDBStore.commit x btlPolicy conf n pvtData missing =
        (c'.pvtDataDBStore, .ok ()) := by
  unfold commit commitWith at h
  split at h
  · cases (Prod.mk.inj h).2
  · rename_i cache hcache
    obtain ⟨rfl, hr⟩ := Prod.mk.inj h
    exact ⟨hcache, Prod.ext rfl hr⟩

variable {c : PvtDataStore}

/-- A commit of a block without data succeeds when the counts agree. -/
theorem commit_nil (hconf : conf.committer = true)
    (hcache : c.cachePvtDataStore.nextBlockNum = n) (hdb : c.pvtDataDBStore.nextBlockNum = n)
    {last : UInt64}
    (hlast : lookupLastBlock c.pvtDataDBStore.db = .ok (last, rev)) :
    (c.commit x btlPolicy conf n [] ∅).2 = .ok () := by
  have hse : prepareStoreEntries btlPolicy n [] ∅ = .ok ⟨[], [], ∅, ∅⟩ := rfl
  have hc : (c.cachePvtDataStore.commit btlPolicy conf n [] ∅).2 = .ok () := by
    simp [CachedStore.commit, hconf, hcache, hse]
  have hd : (c.pvtDataDBStore.commit x btlPolicy conf n [] ∅).2 = .ok () := by
    have hdoc : createPvtDataCouchDoc x [] [] n none = .ok none := rfl
    simp [Store.commit, Store.commitWith, hconf, hdb, hse, hdoc, Store.prepareMissingKeys,
      Store.prepareLastCommittedBlockDoc, hlast, Store.commitPending,
      Store.batchUpdateDocuments, Store.updateMissingKeys]
  unfold commit commitWith
  cases hr : c.cachePvtDataStore.commit btlPolicy conf n [] ∅ with
  | mk cache r =>
    rw [hr] at hc
    obtain rfl : r = .ok () := hc
    exact hd

theorem counts_new : Counts 0 PvtDataStore.new where
  db_next := by decide
  cache_next := by decide
  empty_iff := by decide
  persisted := rfl
  list := rfl

/-- The number a store with `k` blocks reads from CouchDB, if it can read it. -/
theorem Counts.lookupLastBlock (h : Counts k c) : (k ≤ 2 ^ 63 ∧ ∃ n rev, n.toNat = k - 1 ∧
        PvtData.lookupLastBlock c.pvtDataDBStore.db = .ok (n, rev)) ∨
      (2 ^ 63 < k ∧ ∃ e, PvtData.lookupLastBlock c.pvtDataDBStore.db = .error e) := by
  have hpersisted := h.persisted
  cases k with
  | zero => exact .inl ⟨Nat.zero_le _, 0, none, rfl, lookupLastBlock_of_none hpersisted⟩
  | succ m =>
    obtain ⟨rev, n, rfl, hl⟩ := hpersisted
    rcases lookupLastBlock_of_last hl with ⟨hlt, hok⟩ | ⟨hge, herr⟩
    · exact .inl ⟨hlt, n, some rev, rfl, hok⟩
    · exact .inr ⟨Nat.lt_succ_of_le hge, herr⟩

/-- One more block. -/
theorem Counts.commit {c c' : PvtDataStore} {pvtData : List TxPvtData}
    {missing : TxMissingPvtDataMap} (h : Counts k c)
    (hok : c.commit x btlPolicy conf n pvtData missing = (c', .ok ())) :
    k ≤ 2 ^ 63 ∧ Counts (k + 1) c' := by
  obtain ⟨hcache, hdb⟩ := commit_ok hok
  obtain ⟨_, _, hlast, hempty, _⟩ := CachedStore.commit_ok hcache
  rcases Store.commit_cases hdb with ⟨e, _, he, _⟩ | ⟨_, se, doc, pending, kv, last, hcom⟩
  · cases he
  have hn : n.toNat = k := by rw [← h.db_next, hcom.next]
  have hk : k ≤ 2 ^ 63 := by
    rcases h.lookupLastBlock with ⟨hk, _⟩ | ⟨_, e, herr⟩
    · exact hk
    · cases hcom.lookup.symm.trans herr
  have hsucc : (n + 1).toNat = k + 1 := by
    rw [UInt64.toNat_add, hn, UInt64.toNat_one, Nat.mod_eq_of_lt (by omega)]
  refine ⟨hk, ?_, ?_, ?_, ⟨_, n, hn, hcom.lookup_last⟩, ?_⟩
  · rw [hcom.eq]
    exact hsucc
  · rw [CachedStore.nextBlockNum, hempty, hlast]
    exact hsucc
  · rw [hcom.eq]
    simp
  · rw [hcom.lookup_index notMissingKey_lastUpdated (by decide)]
    exact h.list

theorem BlocksCommitted.counts (h : BlocksCommitted x btlPolicy conf k c) : Counts k c := by
  induction h with
  | new => exact counts_new
  | commit _ hok ih => exact (ih.commit hok).2

theorem exists_blocksCommitted (hconf : conf.committer = true) :
    ∀ {k : Nat}, k ≤ 2 ^ 63 + 1 → ∃ c, BlocksCommitted x btlPolicy conf k c
  | 0, _ => ⟨_, .new⟩
  | k + 1, hk => by
    obtain ⟨c, hc⟩ := exists_blocksCommitted hconf (k := k) (by omega)
    have hcounts := hc.counts
    rcases hcounts.lookupLastBlock with ⟨_, n, rev, _, hlast⟩ | ⟨hgt, _⟩
    · have hdb : c.pvtDataDBStore.nextBlockNum = UInt64.ofNat k := by
        rw [← hcounts.db_next, UInt64.ofNat_toNat]
      have hcache : c.cachePvtDataStore.nextBlockNum = UInt64.ofNat k := by
        rw [← hcounts.cache_next, UInt64.ofNat_toNat]
      exact ⟨_, .commit hc (Prod.ext rfl (commit_nil hconf hcache hdb hlast))⟩
    · omega

/-- What reopening makes of the number read from CouchDB: zero means empty. -/
theorem reopen_of_lookup (hconf : conf.committer = true)
    (hlast : PvtData.lookupLastBlock c.pvtDataDBStore.db = .ok (n, rev))
    (hlist : c.pvtDataDBStore.missingKeysIndexDB.lookup lastUpdatedOldBlocksKey = none) :
    c.reopen x conf = .ok
      { pvtDataDBStore :=
          { db := c.pvtDataDBStore.db
            missingKeysIndexDB := c.pvtDataDBStore.missingKeysIndexDB
            lastCommittedBlock := n
            empty := n = 0
            isLastUpdatedOldBlocksSet := false }
        cachePvtDataStore := CachedStore.create ((if n = 0 then 0 else n + 1) - 1) } := by
  rw [reopen, openStore, Store.openStore, if_pos hconf, hlast, getLastUpdatedOldBlocksList, hlist]
  simp [Store.lastCommittedBlockHeight]

theorem acceptsExactly_of_next (hconf : conf.committer = true)
    (hcache : c.cachePvtDataStore.nextBlockNum.toNat = k)
    (hdb : c.pvtDataDBStore.nextBlockNum.toNat = k) {last : UInt64}
    (hlast : PvtData.lookupLastBlock c.pvtDataDBStore.db = .ok (last, rev)) :
    AcceptsExactly x btlPolicy conf k c := by
  refine ⟨fun n pvtData missing hok => ?_, ?_⟩
  · obtain ⟨hcok, _⟩ := commit_ok (Prod.ext rfl hok)
    obtain ⟨_, hnext, _⟩ := CachedStore.commit_ok hcok
    rw [← hnext, hcache]
  · refine commit_nil hconf ?_ ?_ hlast
    · rw [← hcache, UInt64.ofNat_toNat]
    · rw [← hdb, UInt64.ofNat_toNat]

/-- With `k` blocks the store reopens unless `k` is 1 or above 2^63. -/
theorem reopens_iff (hconf : conf.committer = true) (k : Nat) :
    Reopens x btlPolicy conf k ↔ k ≠ 1 ∧ k ≤ 2 ^ 63 := by
  constructor
  · rintro ⟨⟨c, hc⟩, hall⟩
    obtain ⟨c', hre, hheight, _⟩ := hall c hc
    have hcounts := hc.counts
    rcases hcounts.lookupLastBlock with ⟨hk, n, rev, hn, hlast⟩ | ⟨_, e, herr⟩
    · refine ⟨?_, hk⟩
      rintro rfl
      -- the number zero of the only block is read as "no block"
      obtain rfl : n = 0 := UInt64.toNat_inj.mp hn
      rw [reopen_of_lookup hconf hlast hcounts.list] at hre
      obtain rfl := Except.ok.inj hre
      cases hheight
    · rw [reopen, openStore, Store.openStore, if_pos hconf, herr] at hre
      cases hre
  · rintro ⟨hk1, hk⟩
    refine ⟨exists_blocksCommitted hconf (Nat.le_succ_of_le hk), fun c hc => ?_⟩
    have hcounts := hc.counts
    rcases hcounts.lookupLastBlock with ⟨_, n, rev, hn, hlast⟩ | ⟨hgt, _⟩
    · have hre := reopen_of_lookup (x := x) hconf hlast hcounts.list
      rcases Nat.eq_zero_or_pos k with rfl | hpos
      · obtain rfl : n = 0 := UInt64.toNat_inj.mp hn
        refine ⟨_, hre, rfl, ?_, acceptsExactly_of_next hconf ?_ rfl hlast⟩
        · rw [hcounts.empty_iff.mpr rfl]
          rfl
        · exact counts_new.cache_next
      · have hn0 : n ≠ 0 := by
          rintro rfl
          rw [UInt64.toNat_zero] at hn
          omega
        have hsucc : (n + 1).toNat = k := by
          rw [UInt64.toNat_add, hn, UInt64.toNat_one, Nat.mod_eq_of_lt (by omega)]
          omega
        refine ⟨_, hre, ?_, ?_, acceptsExactly_of_next hconf ?_ ?_ hlast⟩
        · simpa [lastCommittedBlockHeight, Store.lastCommittedBlockHeight, hn0] using hsucc
        · have hne : c.pvtDataDBStore.empty = false := by
            rw [Bool.eq_false_iff]
            exact fun he => hpos.ne' (hcounts.empty_iff.mp he)
          rw [hne]
          simpa using hn0
        · simpa [CachedStore.create, CachedStore.nextBlockNum, hn0] using hsucc
        · simpa [Store.nextBlockNum, hn0] using hsucc
    · omega

/-- An empty store, and one with two blocks. -/
theorem reopens_empty_and_second :
    plainConf.committer = true ∧
      Reopens plainExternals (lifetimePolicy fun _ _ => 0) plainConf 0 ∧
      Reopens plainExternals (lifetimePolicy fun _ _ => 0) plainConf 2 :=
  ⟨rfl, (reopens_iff rfl 0).mpr (by decide), (reopens_iff rfl 2).mpr (by decide)⟩

def firstBlockOnly : PvtDataStore × Except Err Unit :=
  PvtDataStore.new.commit plainExternals (lifetimePolicy fun _ _ => 0) plainConf 0 [] ∅

/-- Block 0 is forgotten when it is the only one. -/
theorem not_reopens_one :
    ¬ Reopens plainExternals (lifetimePolicy fun _ _ => 0) plainConf 1 := by
  rintro ⟨_, hall⟩
  have hcommit : firstBlockOnly.2 = .ok () := by decide +kernel
  obtain ⟨c', hre, hheight, _⟩ := hall firstBlockOnly.1 (.commit .new (Prod.ext rfl hcommit))
  have hzero : (firstBlockOnly.1.reopen plainExternals plainConf).toOption.map
      lastCommittedBlockHeight = some 0 := by decide +kernel
  rw [hre] at hzero
  rw [show c'.lastCommittedBlockHeight = 0 from Option.some.inj hzero] at hheight
  cases hheight

end PvtDataStore

end

end FabricPeerExt.PvtData
