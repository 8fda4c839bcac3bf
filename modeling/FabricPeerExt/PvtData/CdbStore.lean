/-
FabricPeerExt.PvtData.CdbStore — the CouchDB private-data store, `cdbpvtdatastore/store_impl.go`
and `reconcile_missing_pvtdata.go`.

An operation that fails after some of its writes leaves those behind. `CommitFault` names the
places where `Commit` can fail or the process can stop.
-/
import FabricPeerExt.PvtData.Assembler
import FabricPeerExt.PvtData.OldBlocks

namespace FabricPeerExt.PvtData

open Lib

/-- `store`. The lock and the processor are in `Sys`. -/
structure Store where
  db : CouchDB
  missingKeysIndexDB : Kv
  lastCommittedBlock : UInt64
  empty : Bool
  isLastUpdatedOldBlocksSet : Bool
  deriving DecidableEq

/-- The places where `Commit` can fail or the process can stop. -/
inductive CommitFault where
  /-- The put of the pending-commit marker. -/
  | pendingPut (cause : Err)
  /-- The bulk request to CouchDB as a whole; the documents for which `applied` holds
  were written before it failed. -/
  | bulkRequest (applied : GoString → Bool) (cause : Err)
  /-- Single documents of the bulk request: the request is answered, with an error
  for each document for which `applied` does not hold. -/
  | bulkDocuments (applied : GoString → Bool)
  /-- The LevelDB batch with the missing-data entries. -/
  | writeBatch (cause : Err)

namespace Store

section
variable (s : Store)

/-- `store.nextBlockNum`. -/
def nextBlockNum : UInt64 := if s.empty then 0 else s.lastCommittedBlock + 1

/-- `store.LastCommittedBlockHeight`. -/
def lastCommittedBlockHeight : UInt64 := if s.empty then 0 else s.lastCommittedBlock + 1

/-- `store.UpdateLastCommittedBlockNum`, as one step. -/
def updateLastCommittedBlockNum (blockNum : UInt64) : Store :=
  { s with lastCommittedBlock := blockNum, empty := false }

end

/-! ## Opening -/

/-- `OpenStore` with its `initState`, over what the two databases hold. Block zero is
taken for an empty store. A peer that does not commit has no missing-data index. -/
def openStore (x : Externals) (conf : Conf) (db : CouchDB) (missingKeysIndexDB : Kv) :
    Except Err Store :=
  if conf.committer then
    match lookupLastBlock db with
    | .error e => .error (.wrap "lookupLastBlock failed" e)
    | .ok (lastCommittedBlock, _) => match getLastUpdatedOldBlocksList x missingKeysIndexDB with
      | .error e => .error (.wrap "getLastUpdatedOldBlocksList failed" e)
      | .ok blist => .ok
          { db := db
            missingKeysIndexDB := missingKeysIndexDB
            lastCommittedBlock := lastCommittedBlock
            empty := lastCommittedBlock = 0
            isLastUpdatedOldBlocksSet := !blist.isEmpty }
  else
    match lookupLastBlock db with
    | .error e => .error e
    | .ok (lastCommittedBlock, _) => .ok
        { db := db
          missingKeysIndexDB := missingKeysIndexDB
          lastCommittedBlock := lastCommittedBlock
          empty := lastCommittedBlock = 0
          isLastUpdatedOldBlocksSet := false }

def reopen (x : Externals) (conf : Conf) (s : Store) : Except Err Store :=
  openStore x conf s.db s.missingKeysIndexDB

def new : Store :=
  { db := ∅, missingKeysIndexDB := ∅, lastCommittedBlock := 0, empty := true,
    isLastUpdatedOldBlocksSet := false }

/-! ## Commit -/

section
variable (x : Externals) (btlPolicy : BtlPolicy) (conf : Conf)

/-- `store.preparePendingMissingDataEntries`. -/
def preparePendingMissingDataEntries (missingDataEntries : GoMap MissingDataKey BitSet)
    (encodeKey : MissingDataKey → Bytes) : Except Err (GoMap GoString GoString) :=
  match collect (encodePair encodeKey (encodeMissingDataValue x)) missingDataEntries.toList with
  | .error e => .error e
  | .ok ps => .ok (GoMap.insertAll ∅ ps)

def pendingOf (pvtDataDoc : Option CouchDoc) (storeEntries : StoreEntries) :
    Except Err PendingPvtData :=
  match preparePendingMissingDataEntries x storeEntries.elgMissingDataEntries
      (encodeElgPrioMissingDataKey x) with
  | .error e => .error e
  | .ok elg => match preparePendingMissingDataEntries x storeEntries.inelgMissingDataEntries
      (encodeInelgMissingDataKey x) with
    | .error e => .error e
    | .ok inelg => .ok
        { pvtDataDoc := pvtDataDoc
          elgMissingDataEntries := elg
          inelgMissingDataEntries := inelg
          batchPending := true }

/-- `prepareMissingKeys`: the pending private data, and the index with the marker. A
block with nothing to store leaves no marker. -/
def prepareMissingKeys (fault : Option CommitFault) (missingKeysIndexDB : Kv)
    (pvtDataDoc : Option CouchDoc) (storeEntries : StoreEntries) :
    Except Err (Kv × PendingPvtData) :=
  if pvtDataDoc.isSome || !storeEntries.elgMissingDataEntries.toList.isEmpty ||
      !storeEntries.inelgMissingDataEntries.toList.isEmpty then
    match pendingOf x pvtDataDoc storeEntries with
    | .error e => .error e
    | .ok pending => match x.pendingPvtData pending with
      | .error e => .error (.plain e)
      | .ok bytes => match fault with
        | some (.pendingPut cause) =>
            .error (.wrap "put in leveldb failed for key PendingCommitKey" cause)
        | _ => .ok (missingKeysIndexDB.insert pendingCommitKey bytes, pending)
  else .ok (missingKeysIndexDB,
    { pvtDataDoc := none, elgMissingDataEntries := ∅, inelgMissingDataEntries := ∅,
      batchPending := true })

/-- `BatchUpdateDocuments`: the database it leaves, and the error of the request. The
callers look at nothing else. -/
def batchUpdateDocuments (fault : Option CommitFault) (db : CouchDB) (docs : List CouchDoc) :
    CouchDB × Except Err Unit :=
  match fault with
  | some (.bulkRequest applied cause) =>
      (db.bulk (docs.filter fun doc => applied doc.id), .error cause)
  | some (.bulkDocuments applied) => (db.bulk (docs.filter fun doc => applied doc.id), .ok ())
  | _ => (db.bulk docs, .ok ())

def missingKeysBatch (pending : PendingPvtData) : Batch :=
  (pending.elgMissingDataEntries.toList.map fun p => BatchOp.put p.1 p.2) ++
    (pending.inelgMissingDataEntries.toList.map fun p => BatchOp.put p.1 p.2) ++
    [.delete pendingCommitKey]

/-- `store.updateMissingKeys`. -/
def updateMissingKeys (fault : Option CommitFault) (missingKeysIndexDB : Kv)
    (pending : PendingPvtData) : Except Err Kv :=
  match fault with
  | some (.writeBatch cause) => .error (.wrap "WriteBatch failed" cause)
  | _ => .ok ((missingKeysBatch pending).apply missingKeysIndexDB)

/-- `store.prepareLastCommittedBlockDoc`. -/
def prepareLastCommittedBlockDoc (db : CouchDB) (committingBlockNum : UInt64) :
    Except Err CouchDoc :=
  match lookupLastBlock db with
  | .error e => .error e
  | .ok (_, rev) => .ok (createLastCommittedBlockDoc committingBlockNum rev)

/-- `Commit` from the bulk request on: the documents, the missing-data entries, the
block count. -/
def commitPending (fault : Option CommitFault) (s : Store) (blockNum : UInt64)
    (pending : PendingPvtData) (lastCommittedBlockDoc : CouchDoc) : Store × Except Err Unit :=
  match batchUpdateDocuments fault s.db (pending.pvtDataDoc.toList ++ [lastCommittedBlockDoc]) with
  | (db, .error e) =>
      ({ s with db := db },
        .error (.wrap s!"writing private data to CouchDB failed [{blockNum}]" e))
  | (db, .ok ()) =>
    match updateMissingKeys fault s.missingKeysIndexDB pending with
    | .error e => ({ s with db := db }, .error e)
    | .ok missingKeysIndexDB =>
      (updateLastCommittedBlockNum { s with db := db, missingKeysIndexDB := missingKeysIndexDB }
        blockNum, .ok ())

/-- `store.Commit`, with the place at which it fails. -/
def commitWith (fault : Option CommitFault) (s : Store) (blockNum : UInt64)
    (pvtData : List TxPvtData) (missingPvtData : TxMissingPvtDataMap) :
    Store × Except Err Unit :=
  if !conf.committer then
    (s, .error (.panic "calling Prepare on a peer that is not a committer"))
  else
    let expectedBlockNum := s.nextBlockNum
    if expectedBlockNum ≠ blockNum then
      (s, .error (.illegalCall
        s!"Expected block number={expectedBlockNum}, received block number={blockNum}"))
    else match prepareStoreEntries btlPolicy blockNum pvtData missingPvtData with
      | .error e => (s, .error e)
      | .ok storeEntries =>
        match createPvtDataCouchDoc x storeEntries.dataEntries storeEntries.expiryEntries
            blockNum none with
        | .error e => (s, .error e)
        | .ok pvtDataDoc =>
          match prepareMissingKeys x fault s.missingKeysIndexDB pvtDataDoc storeEntries with
          | .error e => (s, .error e)
          | .ok (missingKeysIndexDB, pending) =>
            let s := { s with missingKeysIndexDB := missingKeysIndexDB }
            match prepareLastCommittedBlockDoc s.db blockNum with
            | .error e => (s, .error (.wrap "prepareLastCommittedBlockDoc failed" e))
            | .ok lastCommittedBlockDoc =>
              commitPending fault s blockNum pending lastCommittedBlockDoc

def commit (s : Store) (blockNum : UInt64) (pvtData : List TxPvtData)
    (missingPvtData : TxMissingPvtDataMap) : Store × Except Err Unit :=
  commitWith x btlPolicy conf none s blockNum pvtData missingPvtData

def purgeScheduled (latestCommittedBlk : UInt64) : Bool :=
  latestCommittedBlk % conf.purgeInterval = 0

end

/-! ## Reading -/

section
variable (x : Externals) (btlPolicy : BtlPolicy) (conf : Conf)

def checkRange (isEmpty : Bool) (lastCommittedBlock blockNum : UInt64) : Except Err Unit :=
  if isEmpty then .error (.outOfRange "The store is empty")
  else if lastCommittedBlock < blockNum then
    .error (.outOfRange
      s!"Last committed block={lastCommittedBlock}, block requested={blockNum}")
  else .ok ()

/-- `checkLastCommittedBlock`: a peer that does not commit asks the database. -/
def checkLastCommittedBlock (s : Store) (blockNum : UInt64) : Except Err Unit :=
  if conf.committer then checkRange s.empty s.lastCommittedBlock blockNum
  else match lookupLastBlock s.db with
    | .error e => .error (.wrap "lookupLastBlock failed" e)
    | .ok (lastCommittedBlock, _) =>
        checkRange (lastCommittedBlock = 0) lastCommittedBlock blockNum

/-- `store.GetPvtDataByBlockNum`. -/
def getPvtDataByBlockNum (s : Store) (blockNum : UInt64) (filter : PvtNsCollFilter) :
    Except Err (List RetrievedTxPvtData) :=
  match checkLastCommittedBlock conf s blockNum with
  | .error e => .error e
  | .ok () => match retrieveBlockPvtData s.db (blockNumberToKey blockNum) with
    | .error .notFoundInIndex => .ok []
    | .error e => .error e
    | .ok response =>
      assemble x btlPolicy filter s.lastCommittedBlock response.data blockNum

/-- `GetLastUpdatedOldBlocksPvtData`: by block; the nil map is empty. -/
def getLastUpdatedOldBlocksPvtData (s : Store) :
    Except Err (GoMap UInt64 (List RetrievedTxPvtData)) :=
  if !s.isLastUpdatedOldBlocksSet then .ok ∅
  else match getLastUpdatedOldBlocksList x s.missingKeysIndexDB with
    | .error e => .error (.wrap "GetLastUpdatedOldBlocksList failed" e)
    | .ok updatedBlksList =>
      forEach (fun (blksPvtData : GoMap UInt64 (List RetrievedTxPvtData)) blkNum =>
        match getPvtDataByBlockNum x btlPolicy conf s blkNum none with
        | .error e => .error e
        | .ok pvtData => .ok (blksPvtData.insert blkNum pvtData)) ∅ updatedBlksList

/-- `store.ResetLastUpdatedOldBlocksList`. -/
def resetLastUpdatedOldBlocksList (s : Store) : Store :=
  { s with
    missingKeysIndexDB :=
      Batch.apply [BatchOp.delete lastUpdatedOldBlocksKey] s.missingKeysIndexDB
    isLastUpdatedOldBlocksSet := false }

end

/-! ## Reconciliation -/

section
variable (x : Externals) (btlPolicy : BtlPolicy)

/-- `store.getExpiryEntriesDB`. -/
def getExpiryEntriesDB (s : Store) (blockNum : UInt64) : Except Err (GoMap GoString Bytes) :=
  match retrieveBlockPvtData s.db (blockNumberToKey blockNum) with
  | .error .notFoundInIndex => .ok ∅
  | .error e => .error e
  | .ok response => .ok response.expiry

/-- `store.getExpiryDataOfExpiryKey`. -/
def getExpiryDataOfExpiryKey (s : Store) (expiryKey : ExpiryKey) :
    Except Err (Option ExpiryData) :=
  match getExpiryEntriesDB s expiryKey.committingBlk with
  | .error e => .error (.wrap "getExpiryEntriesDB failed" e)
  | .ok expiryEntriesMap => match expiryEntriesMap.lookup (expiryId x expiryKey) with
    | none => .ok none
    | some v => match decodeExpiryValue x v with
      | .error e => .error e
      | .ok expiryData => .ok (some expiryData)

/-- One round of `store.retrieveBlockPvtDataEntries`. -/
def readDataEntry (p : GoString × Bytes) :
    Except Err (DataKey × CollectionPvtReadWriteSet) :=
  match hexDecode p.1 with
  | .error e => .error (.plain e)
  | .ok dataKeyBytes => match decodeDatakey x dataKeyBytes with
    | .error e => .error e
    | .ok dataKey => match decodeDataValue x p.2 with
      | .error e => .error e
      | .ok dataValue => .ok (dataKey, dataValue)

/-- One round of `store.retrieveBlockPvtExpiryEntries`. -/
def readExpiryEntry (p : GoString × Bytes) : Except Err (ExpiryKey × ExpiryData) :=
  match hexDecode p.1 with
  | .error e => .error (.plain e)
  | .ok expiryKeyBytes => match decodeExpiryKey x expiryKeyBytes with
    | .error e => .error e
    | .ok expiryKey => match decodeExpiryValue x p.2 with
      | .error e => .error e
      | .ok expiryValue => .ok (expiryKey, expiryValue)

structure BlockPvtEntries where
  dataEntries : List (DataKey × CollectionPvtReadWriteSet)
  expiryEntries : List (ExpiryKey × ExpiryData)
  rev : Option Nat

/-- `store.retrieveBlockPvtEntries`. -/
def retrieveBlockPvtEntries (s : Store) (blockNum : UInt64) : Except Err BlockPvtEntries :=
  match retrieveBlockPvtData s.db (blockNumberToKey blockNum) with
  | .error .notFoundInIndex => .ok ⟨[], [], none⟩
  | .error e => .error e
  | .ok response => match collect (readDataEntry x) response.data.toList with
    | .error e => .error e
    | .ok dataEntries => match collect (readExpiryEntry x) response.expiry.toList with
      | .error e => .error e
      | .ok expiryEntries => .ok ⟨dataEntries, expiryEntries, some response.rev⟩

/-- `preparePvtDataDoc`: the document of an old block with the updates added at the
end, so that they win. -/
def preparePvtDataDoc (s : Store) (blockNum : UInt64) (updateEntries : DataAndExpiryEntries) :
    Except Err CouchDoc :=
  match retrieveBlockPvtEntries x s blockNum with
  | .error e => .error (.wrap "retrieveBlockPvtEntries failed" e)
  | .ok old =>
    match createPvtDataCouchDoc x
        ((old.dataEntries ++ updateEntries.dataEntries.toList).map fun p => ⟨p.1, p.2⟩)
        ((old.expiryEntries ++ updateEntries.expiryEntries.toList).map fun p => ⟨p.1, p.2⟩)
        blockNum old.rev with
    | .error e => .error e
    | .ok none => .error (.panic "nil document")
    | .ok (some doc) => .ok doc

/-- `store.constructDBUpdateBatch`, up to its last call. -/
def oldBlockEntries (s : Store) (blocksPvtData : GoMap UInt64 (List TxPvtData))
    (unreconciledMissingData : MissingPvtDataInfo) : Except Err EntriesForPvtDataOfOldBlocks :=
  match prepareDataAndExpiryEntries btlPolicy (getExpiryDataOfExpiryKey x s) blocksPvtData
      newEntriesForPvtDataOfOldBlocks with
  | .error e => .error e
  | .ok entries =>
    match prepareMissingDataEntriesToReflectReconciledData x s.missingKeysIndexDB entries with
    | .error e => .error e
    | .ok entries => prepareMissingDataEntriesToReflectPriority x s.missingKeysIndexDB
        unreconciledMissingData entries

/-- `CommitPvtDataOfOldBlocks`. It does not set `isLastUpdatedOldBlocksSet`. -/
def commitPvtDataOfOldBlocks (s : Store) (blocksPvtData : GoMap UInt64 (List TxPvtData))
    (unreconciledMissingData : MissingPvtDataInfo) : Store × Except Err Unit :=
  if s.isLastUpdatedOldBlocksSet then
    (s, .error (.illegalCall
      ("The lastUpdatedOldBlocksList is set. It means that the\n\t\t" ++
        "stateDB may not be in sync with the pvtStore")))
  else match oldBlockEntries x btlPolicy s blocksPvtData unreconciledMissingData with
    | .error e => (s, .error e)
    | .ok entries => match constructDBUpdateBatch x (preparePvtDataDoc x s) entries with
      | .error e => (s, .error e)
      | .ok (docs, batch) =>
        let list := encodeLastUpdatedOldBlocksList x blocksPvtData.keys
        ({ s with
           db := s.db.bulk docs
           missingKeysIndexDB :=
             Batch.apply (batch ++ [.put lastUpdatedOldBlocksKey list]) s.missingKeysIndexDB },
          .ok ())

end

/-! ## Purge -/

section
variable (x : Externals)

structure Expired where
  data : GoMap GoString Bytes
  batch : Batch
  expBlkNums : List GoString

def missingDataDeletes (missingDataKey : MissingDataKey) : Batch :=
  [.delete (encodeElgPrioMissingDataKey x missingDataKey),
    .delete (encodeElgDeprioMissingDataKey x missingDataKey),
    .delete (encodeInelgMissingDataKey x missingDataKey)]

def expireEntry (maxBlkNum : UInt64) (acc : Expired) (p : GoString × Bytes) :
    Except Err Expired :=
  match hexDecode p.1 with
  | .error e => .error (.plain e)
  | .ok expiryKeyBytes => match decodeExpiryKey x expiryKeyBytes with
    | .error e => .error e
    | .ok expiryKey =>
      if expiryKey.expiringBlk ≤ maxBlkNum then
        match decodeExpiryValue x p.2 with
        | .error e => .error e
        | .ok expiryValue =>
          let (dataKeys, missingDataKeys) := deriveKeys ⟨expiryKey, expiryValue⟩
          .ok { acc with
                data := acc.data.eraseAll (dataKeys.map (dataId x))
                batch := acc.batch ++ missingDataKeys.flatMap (missingDataDeletes x) }
      else .ok { acc with
                 expBlkNums := acc.expBlkNums ++ [blockNumberToKey expiryKey.expiringBlk] }

/-- `getExpiredDataDoc`: the document without its expired data, and the deletions in
the missing-data index. The document goes when no data is left; its expiry entries
stay as they are. -/
def getExpiredDataDoc (maxBlkNum : UInt64) (data : BlockPvtDataResponse) :
    Except Err (CouchDoc × Batch) :=
  match forEach (expireEntry x maxBlkNum) ⟨data.data, [], []⟩ data.expiry.toList with
  | .error e => .error e
  | .ok expired => .ok
      ({ id := data.id
         rev := some data.rev
         deleted := expired.data.toList.isEmpty
         body := .blockPvtData
          { data := expired.data
            expiry := data.expiry
            expiringBlkNums := expired.expBlkNums } },
        expired.batch)

/-- `store.prepareExpiredData`. -/
def prepareExpiredData (maxBlkNum : UInt64) (pvtData : List BlockPvtDataResponse) :
    Except Err (List CouchDoc × Batch) :=
  match collect (getExpiredDataDoc x maxBlkNum) pvtData with
  | .error e => .error e
  | .ok l => .ok (l.map Prod.fst, l.flatMap Prod.snd)

/-- `store.purgeExpiredData`. -/
def purgeExpiredData (conf : Conf) (s : Store) (maxBlkNum : UInt64) : Store × Except Err Unit :=
  match prepareExpiredData x maxBlkNum
      (retrieveBlockExpiryData conf.findLimit s.db (blockNumberToKey maxBlkNum)) with
  | .error e => (s, .error e)
  | .ok (docs, batch) =>
    ({ s with
       db := s.db.bulk docs
       missingKeysIndexDB := batch.apply s.missingKeysIndexDB }, .ok ())

end

end Store

end FabricPeerExt.PvtData
