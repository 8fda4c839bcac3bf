/-
FabricPeerExt.PvtData.Combined — the cache, `cachedpvtdatastore/store_impl.go`, and the store that
puts it in front of the CouchDB store, `pvtdatastorage/store_impl.go`.
-/
import FabricPeerExt.PvtData.CdbStore

namespace FabricPeerExt.PvtData

open Lib

/-! ## The cache -/

/-- `store` of the cache, with blocks in any number. -/
structure CachedStore where
  cache : GoMap UInt64 (List DataEntry)
  lastCommittedBlock : UInt64
  empty : Bool
  deriving DecidableEq

namespace CachedStore

/-- `Provider.Create`. -/
def create (lastCommittedBlockNum : UInt64) : CachedStore :=
  { cache := ∅
    lastCommittedBlock := lastCommittedBlockNum
    empty := lastCommittedBlockNum = 0 }

/-- `store.nextBlockNum`. -/
def nextBlockNum (s : CachedStore) : UInt64 := if s.empty then 0 else s.lastCommittedBlock + 1

/-- `store.UpdateLastCommittedBlockNum`. -/
def updateLastCommittedBlockNum (s : CachedStore) (blockNum : UInt64) : CachedStore :=
  { s with lastCommittedBlock := blockNum, empty := false }

def evict (s : CachedStore) (keep : UInt64 → Bool) : CachedStore :=
  { s with cache := s.cache.eraseAll (s.cache.keys.filter fun b => !keep b) }

section
variable (x : Externals) (btlPolicy : BtlPolicy) (conf : Conf)

/-- `Commit`. A block without data is not put into the cache. -/
def commit (s : CachedStore) (blockNum : UInt64) (pvtData : List TxPvtData)
    (missingPvtData : TxMissingPvtDataMap) : CachedStore × Except Err Unit :=
  if !conf.committer then
    (s, .error (.panic "calling Prepare on a peer that is not a committer"))
  else
    let expectedBlockNum := s.nextBlockNum
    if expectedBlockNum ≠ blockNum then
      (s, .error (.illegalCall
        s!"Expected block number={expectedBlockNum}, received block number={blockNum}"))
    else match prepareStoreEntries btlPolicy blockNum pvtData missingPvtData with
      | .error e => (s, .error e)
      | .ok storeEntries =>
        let committingBlockNum := s.nextBlockNum
        let cache := if storeEntries.dataEntries.isEmpty then s.cache
          else s.cache.insert committingBlockNum storeEntries.dataEntries
        (updateLastCommittedBlockNum { s with cache := cache } committingBlockNum, .ok ())

/-- `v11RetrievePvtdata`. -/
def v11RetrievePvtdata (filter : PvtNsCollFilter) (dataEntries : List DataEntry) :
    Except Err (List RetrievedTxPvtData) :=
  collect (fun dataEntry => match encodeDataValue x dataEntry.value with
    | .error e => .error (.wrap "EncodeDataValue failed" e)
    | .ok value => v11DecodeKV x (encodeDataKey x dataEntry.key) value filter) dataEntries

def getBlockPvtDataLoop (filter : PvtNsCollFilter) (lastCommittedBlock : UInt64)
    (dataEntries : List DataEntry) :
    BlockAssembler → List DataEntry → Except Err (List RetrievedTxPvtData)
  | a, [] => .ok a.finish
  | a, dataEntry :: rest => match v11Format x (encodeDataKey x dataEntry.key) with
    | .error e => .error e
    | .ok true => v11RetrievePvtdata x filter dataEntries
    | .ok false =>
      match isExpired btlPolicy dataEntry.key.toNsCollBlk lastCommittedBlock with
      | .error e => .error e
      | .ok expired =>
        let a' := if expired || !passesFilter dataEntry.key filter then a
          else a.add dataEntry.key dataEntry.value
        getBlockPvtDataLoop filter lastCommittedBlock dataEntries a' rest

/-- `store.getBlockPvtData`. -/
def getBlockPvtData (s : CachedStore) (dataEntries : List DataEntry)
    (filter : PvtNsCollFilter) (blockNum : UInt64) : Except Err (List RetrievedTxPvtData) :=
  getBlockPvtDataLoop x btlPolicy filter s.lastCommittedBlock dataEntries
    (BlockAssembler.new blockNum) dataEntries

/-- `GetPvtDataByBlockNum`; a block that is not in the cache gives a nil result. -/
def getPvtDataByBlockNum (s : CachedStore) (blockNum : UInt64) (filter : PvtNsCollFilter) :
    Except Err (List RetrievedTxPvtData) :=
  if s.empty then .error (.outOfRange "The store is empty")
  else if s.lastCommittedBlock < blockNum then
    .error (.outOfRange
      s!"Last committed block={s.lastCommittedBlock}, block requested={blockNum}")
  else match s.cache.lookup blockNum with
    | none => .ok []
    | some dataEntries => getBlockPvtData x btlPolicy s dataEntries filter blockNum

end

end CachedStore

/-! ## The combined store -/

/-- `pvtDataStore`. -/
structure PvtDataStore where
  pvtDataDBStore : Store
  cachePvtDataStore : CachedStore
  deriving DecidableEq

namespace PvtDataStore

section
variable (x : Externals) (btlPolicy : BtlPolicy) (conf : Conf)

/-- `OpenStore`: the cache is told the block before the height of the database, in
64-bit arithmetic also for height zero. -/
def openStore (db : CouchDB) (missingKeysIndexDB : Kv) : Except Err PvtDataStore :=
  match Store.openStore x conf db missingKeysIndexDB with
  | .error e => .error e
  | .ok pvtDataDBStore => .ok
      { pvtDataDBStore := pvtDataDBStore
        cachePvtDataStore := CachedStore.create (pvtDataDBStore.lastCommittedBlockHeight - 1) }

def reopen (c : PvtDataStore) : Except Err PvtDataStore :=
  openStore x conf c.pvtDataDBStore.db c.pvtDataDBStore.missingKeysIndexDB

def new : PvtDataStore :=
  { pvtDataDBStore := Store.new, cachePvtDataStore := CachedStore.create (0 - 1) }

/-- `pvtDataStore.LastCommittedBlockHeight`. -/
def lastCommittedBlockHeight (c : PvtDataStore) : UInt64 :=
  c.pvtDataDBStore.lastCommittedBlockHeight

/-- `pvtDataStore.Commit`. -/
def commitWith (fault : Option CommitFault) (c : PvtDataStore) (blockNum : UInt64)
    (pvtData : List TxPvtData) (pvtMissingDataMap : TxMissingPvtDataMap) :
    PvtDataStore × Except Err Unit :=
  match c.cachePvtDataStore.commit btlPolicy conf blockNum pvtData pvtMissingDataMap with
  | (cache, .error e) => ({ c with cachePvtDataStore := cache }, .error e)
  | (cache, .ok ()) =>
    let (db, r) :=
      c.pvtDataDBStore.commitWith x btlPolicy conf fault blockNum pvtData pvtMissingDataMap
    ({ pvtDataDBStore := db, cachePvtDataStore := cache }, r)

def commit (c : PvtDataStore) (blockNum : UInt64) (pvtData : List TxPvtData)
    (pvtMissingDataMap : TxMissingPvtDataMap) : PvtDataStore × Except Err Unit :=
  commitWith x btlPolicy conf none c blockNum pvtData pvtMissingDataMap

/-- `pvtDataStore.CommitPvtDataOfOldBlocks`. -/
def commitPvtDataOfOldBlocks (c : PvtDataStore)
    (blocksPvtData : GoMap UInt64 (List TxPvtData)) (unreconciled : MissingPvtDataInfo) :
    PvtDataStore × Except Err Unit :=
  let (db, r) := c.pvtDataDBStore.commitPvtDataOfOldBlocks x btlPolicy blocksPvtData unreconciled
  ({ c with pvtDataDBStore := db }, r)

/-- `pvtDataStore.GetPvtDataByBlockNum`. -/
def getPvtDataByBlockNum (c : PvtDataStore) (blockNum : UInt64) (filter : PvtNsCollFilter) :
    Except Err (List RetrievedTxPvtData) :=
  match c.cachePvtDataStore.getPvtDataByBlockNum x btlPolicy blockNum filter with
  | .error e => .error e
  | .ok [] => c.pvtDataDBStore.getPvtDataByBlockNum x btlPolicy conf blockNum filter
  | .ok result => .ok result

def evict (c : PvtDataStore) (keep : UInt64 → Bool) : PvtDataStore :=
  { c with cachePvtDataStore := c.cachePvtDataStore.evict keep }

end

end PvtDataStore

end FabricPeerExt.PvtData
