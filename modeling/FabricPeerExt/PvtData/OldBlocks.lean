/-
FabricPeerExt.PvtData.OldBlocks — reconciliation of old blocks, `common/store.go`. The function of
the store that reads expiry data is the parameter `getExpiryData`.
-/
import FabricPeerExt.Lib.TypedMap
import FabricPeerExt.PvtData.Helper
import FabricPeerExt.PvtData.KvEncoding

namespace FabricPeerExt.PvtData

open Lib

/-- `entriesForPvtDataOfOldBlocks`. -/
structure EntriesForPvtDataOfOldBlocks where
  dataEntries : GoMap DataKey CollectionPvtReadWriteSet
  expiryEntries : GoMap ExpiryKey ExpiryData
  prioritizedMissingDataEntries : GoMap NsCollBlk BitSet
  deprioritizedMissingDataEntries : GoMap NsCollBlk BitSet

/-- `newEntriesForPvtDataOfOldBlocks`. -/
def newEntriesForPvtDataOfOldBlocks : EntriesForPvtDataOfOldBlocks := ⟨∅, ∅, ∅, ∅⟩

/-- `DataAndExpiryEntries`. -/
structure DataAndExpiryEntries where
  dataEntries : GoMap DataKey CollectionPvtReadWriteSet
  expiryEntries : GoMap ExpiryKey ExpiryData

/-! ## Data and expiry entries -/

section
variable (btlPolicy : BtlPolicy) (getExpiryData : ExpiryKey → Except Err (Option ExpiryData))

/-- `OldBlockDataProcessor.constructExpiryKey`. -/
def constructExpiryKey (dataEntry : DataEntry) : Except Err ExpiryKey :=
  match btlPolicy.getExpiringBlock dataEntry.key.ns dataEntry.key.coll dataEntry.key.blkNum with
  | .error e => .error (.wrap "error while constructing expiry data key" e)
  | .ok expiringBlk => .ok { expiringBlk := expiringBlk, committingBlk := dataEntry.key.blkNum }

/-- The body of the loop in `PrepareDataAndExpiryEntries`. An entry whose expiry
data is not there has been purged and is skipped. -/
def prepareDataAndExpiryEntry (entries : EntriesForPvtDataOfOldBlocks) (dataEntry : DataEntry) :
    Except Err EntriesForPvtDataOfOldBlocks :=
  match constructExpiryKey btlPolicy dataEntry with
  | .error e => .error e
  | .ok expKey =>
    if neverExpires expKey.expiringBlk then
      .ok { entries with dataEntries := entries.dataEntries.insert dataEntry.key dataEntry.value }
    else match getExpiryData expKey with
      | .error e => .error e
      | .ok none => .ok entries
      | .ok (some expData) => .ok
          { entries with
            dataEntries := entries.dataEntries.insert dataEntry.key dataEntry.value
            expiryEntries := entries.expiryEntries.insert expKey
              (expData.addPresentData dataEntry.key.ns dataEntry.key.coll dataEntry.key.txNum) }

/-- `ConstructDataEntriesFromBlocksPvtData`. -/
def dataEntriesOfBlocks (blocksPvtData : GoMap UInt64 (List TxPvtData)) : List DataEntry :=
  blocksPvtData.toList.flatMap fun p => prepareDataEntries p.1 p.2

/-- `OldBlockDataProcessor.PrepareDataAndExpiryEntries`. -/
def prepareDataAndExpiryEntries (blocksPvtData : GoMap UInt64 (List TxPvtData))
    (entries : EntriesForPvtDataOfOldBlocks) : Except Err EntriesForPvtDataOfOldBlocks :=
  forEach (prepareDataAndExpiryEntry btlPolicy getExpiryData) entries
    (dataEntriesOfBlocks blocksPvtData)

end

/-! ## Missing data -/

section
variable (x : Externals) (missingKeysIndexDB : Kv)

/-- What `getPrioMissingDataFromEntriesOrStore` and its deprioritised twin share:
the bitmap of this call, else the stored one, else none. -/
def getMissingDataFromEntriesOrStore (encodeKey : MissingDataKey → Bytes)
    (entries : GoMap NsCollBlk BitSet) (nsCollBlk : NsCollBlk) : Except Err (Option BitSet) :=
  match entries.lookup nsCollBlk with
  | some missingData => .ok (some missingData)
  | none => match missingKeysIndexDB.lookup (encodeKey nsCollBlk) with
    | none => .ok none
    | some encMissingData => match decodeMissingDataValue x encMissingData with
      | .error e => .error e
      | .ok missingData => .ok (some missingData)

/-- `OldBlockDataProcessor.getPrioMissingDataFromEntriesOrStore`. -/
def getPrioMissingDataFromEntriesOrStore (entries : EntriesForPvtDataOfOldBlocks)
    (nsCollBlk : NsCollBlk) : Except Err (Option BitSet) :=
  getMissingDataFromEntriesOrStore x missingKeysIndexDB (encodeElgPrioMissingDataKey x)
    entries.prioritizedMissingDataEntries nsCollBlk

/-- `OldBlockDataProcessor.getDeprioMissingDataFromEntriesOrStore`. -/
def getDeprioMissingDataFromEntriesOrStore (entries : EntriesForPvtDataOfOldBlocks)
    (nsCollBlk : NsCollBlk) : Except Err (Option BitSet) :=
  getMissingDataFromEntriesOrStore x missingKeysIndexDB (encodeElgDeprioMissingDataKey x)
    entries.deprioritizedMissingDataEntries nsCollBlk

def hasBit (missingData : Option BitSet) (txNum : UInt64) : Bool :=
  match missingData with
  | none => false
  | some b => b.test txNum

/-- The body of the loop in `PrepareMissingDataEntriesToReflectReconciledData`: the
bit is cleared in the prioritised group if it is there, else in the deprioritised. -/
def reflectReconciledData (entries : EntriesForPvtDataOfOldBlocks) (dataKey : DataKey) :
    Except Err EntriesForPvtDataOfOldBlocks :=
  let key := dataKey.toNsCollBlk
  let txNum := dataKey.txNum
  match getPrioMissingDataFromEntriesOrStore x missingKeysIndexDB entries key with
  | .error e => .error e
  | .ok prioMissingData =>
    if hasBit prioMissingData txNum then
      .ok { entries with
            prioritizedMissingDataEntries := entries.prioritizedMissingDataEntries.insert key
              ((prioMissingData.getD BitSet.empty).clear txNum) }
    else match getDeprioMissingDataFromEntriesOrStore x missingKeysIndexDB entries key with
      | .error e => .error e
      | .ok deprioMissingData =>
        if hasBit deprioMissingData txNum then
          .ok { entries with
                deprioritizedMissingDataEntries :=
                  entries.deprioritizedMissingDataEntries.insert key
                    ((deprioMissingData.getD BitSet.empty).clear txNum) }
        else .ok entries

/-- `OldBlockDataProcessor.PrepareMissingDataEntriesToReflectReconciledData`. -/
def prepareMissingDataEntriesToReflectReconciledData (entries : EntriesForPvtDataOfOldBlocks) :
    Except Err EntriesForPvtDataOfOldBlocks :=
  forEach (reflectReconciledData x missingKeysIndexDB) entries entries.dataEntries.keys

/-- The elements of a missing-data report one by one, as the three nested loops of
`PrepareMissingDataEntriesToReflectPriority` meet them. -/
def missingElements (info : MissingPvtDataInfo) : List (NsCollBlk × UInt64) :=
  info.toList.flatMap fun blk =>
    GoMap.toList blk.2 |>.flatMap fun tx =>
      tx.2.map fun nsColl =>
        ({ ns := nsColl.namespaceName, coll := nsColl.collection, blkNum := blk.1 }, tx.1)

/-- The body of the loops in `PrepareMissingDataEntriesToReflectPriority`. A key
without prioritised bitmap is passed over. -/
def reflectPriority (entries : EntriesForPvtDataOfOldBlocks) (element : NsCollBlk × UInt64) :
    Except Err EntriesForPvtDataOfOldBlocks :=
  let key := element.1
  let txNum := element.2
  match getPrioMissingDataFromEntriesOrStore x missingKeysIndexDB entries key with
  | .error e => .error e
  | .ok none => .ok entries
  | .ok (some prioMissingData) =>
    match getDeprioMissingDataFromEntriesOrStore x missingKeysIndexDB entries key with
    | .error e => .error e
    | .ok deprioMissingData => .ok
        { entries with
          prioritizedMissingDataEntries :=
            entries.prioritizedMissingDataEntries.insert key (prioMissingData.clear txNum)
          deprioritizedMissingDataEntries :=
            entries.deprioritizedMissingDataEntries.insert key
              ((deprioMissingData.getD BitSet.empty).set txNum) }

/-- `OldBlockDataProcessor.PrepareMissingDataEntriesToReflectPriority`. -/
def prepareMissingDataEntriesToReflectPriority (deprioritizedList : MissingPvtDataInfo)
    (entries : EntriesForPvtDataOfOldBlocks) : Except Err EntriesForPvtDataOfOldBlocks :=
  forEach (reflectPriority x missingKeysIndexDB) entries (missingElements deprioritizedList)

end

/-! ## The update batch -/

def dataEntriesByBlock (m : GoMap UInt64 DataAndExpiryEntries)
    (dataEntries : List (DataKey × CollectionPvtReadWriteSet)) :
    GoMap UInt64 DataAndExpiryEntries :=
  dataEntries.foldl (fun m p =>
    let entries := (m.lookup p.1.blkNum).getD ⟨∅, ∅⟩
    m.insert p.1.blkNum { entries with dataEntries := entries.dataEntries.insert p.1 p.2 }) m

/-- The body of the second loop of `dataAndExpiryEntriesByBlock`. The record made for
a block without data entries has nil maps, so the assignment panics. -/
def expiryEntryByBlock (m : GoMap UInt64 DataAndExpiryEntries) (p : ExpiryKey × ExpiryData) :
    Except Err (GoMap UInt64 DataAndExpiryEntries) :=
  match m.lookup p.1.committingBlk with
  | none => .error (.panic "assignment to entry in nil map")
  | some entries => .ok (m.insert p.1.committingBlk
      { entries with expiryEntries := entries.expiryEntries.insert p.1 p.2 })

/-- `entriesForPvtDataOfOldBlocks.dataAndExpiryEntriesByBlock`. -/
def dataAndExpiryEntriesByBlock (e : EntriesForPvtDataOfOldBlocks) :
    Except Err (GoMap UInt64 DataAndExpiryEntries) :=
  forEach expiryEntryByBlock (dataEntriesByBlock ∅ e.dataEntries.toList) e.expiryEntries.toList

/-- `entriesForPvtDataOfOldBlocks.addDataAndExpiryEntriesTo`. -/
def addDataAndExpiryEntriesTo
    (preparePvtDataDoc : UInt64 → DataAndExpiryEntries → Except Err CouchDoc)
    (e : EntriesForPvtDataOfOldBlocks) : Except Err (List CouchDoc) :=
  match dataAndExpiryEntriesByBlock e with
  | .error err => .error err
  | .ok m => collect (fun p => preparePvtDataDoc p.1 p.2) m.toList

/-- What `addElgPrioMissingDataEntriesTo` and its deprioritised twin do for one key:
an empty bitmap is deleted, any other one is stored. -/
def missingDataWrite (x : Externals) (encodeKey : MissingDataKey → Bytes)
    (p : NsCollBlk × BitSet) : Except Err BatchOp :=
  if p.2.none then .ok (.delete (encodeKey p.1))
  else match encodeMissingDataValue x p.2 with
    | .error e => .error (.wrap "error while encoding missing data bitmap" e)
    | .ok val => .ok (.put (encodeKey p.1) val)

/-- `entriesForPvtDataOfOldBlocks.addElgPrioMissingDataEntriesTo`. -/
def addElgPrioMissingDataEntriesTo (x : Externals) (e : EntriesForPvtDataOfOldBlocks) :
    Except Err Batch :=
  collect (missingDataWrite x (encodeElgPrioMissingDataKey x))
    e.prioritizedMissingDataEntries.toList

/-- `entriesForPvtDataOfOldBlocks.addElgDeprioMissingDataEntriesTo`. -/
def addElgDeprioMissingDataEntriesTo (x : Externals) (e : EntriesForPvtDataOfOldBlocks) :
    Except Err Batch :=
  collect (missingDataWrite x (encodeElgDeprioMissingDataKey x))
    e.deprioritizedMissingDataEntries.toList

/-- `OldBlockDataProcessor.ConstructDBUpdateBatch`. -/
def constructDBUpdateBatch (x : Externals)
    (preparePvtDataDoc : UInt64 → DataAndExpiryEntries → Except Err CouchDoc)
    (e : EntriesForPvtDataOfOldBlocks) : Except Err (List CouchDoc × Batch) :=
  match wrapErr "error while adding data and expiry entries to the update batch"
      (addDataAndExpiryEntriesTo preparePvtDataDoc e) with
  | .error err => .error err
  | .ok docs =>
    match wrapErr
        "error while adding eligible prioritized missing data entries to the update batch"
        (addElgPrioMissingDataEntriesTo x e) with
    | .error err => .error err
    | .ok prio =>
      match wrapErr
          "error while adding eligible deprioritized missing data entries to the update batch"
          (addElgDeprioMissingDataEntriesTo x e) with
      | .error err => .error err
      | .ok deprio => .ok (docs, prio ++ deprio)

/-! ## The blocks updated last -/

/-- `GetLastUpdatedOldBlocksList`. The count is read as an `int`, so a count of
`2^63` and more is a negative bound and the loop does not run. -/
def getLastUpdatedOldBlocksList (x : Externals) (missingKeysIndexDB : Kv) :
    Except Err (List UInt64) :=
  match missingKeysIndexDB.lookup lastUpdatedOldBlocksKey with
  | none => .ok []
  | some v => match x.varint.decode v with
    | .error e => .error (.plain e)
    | .ok (numBlks, used) =>
      let count := if numBlks.toNat < 2 ^ 63 then numBlks.toNat else 0
      match x.varint.decodeN count (v.drop used) with
      | .error e => .error (.plain e)
      | .ok (updatedBlksList, _) => .ok updatedBlksList

/-- `addLastUpdatedOldBlocksList` of the store: the sorted list, after its length. -/
def encodeLastUpdatedOldBlocksList (x : Externals) (updatedBlksList : List UInt64) : Bytes :=
  let sorted := updatedBlksList.insertionSort (fun a b => a ≤ b)
  x.varint.encode (UInt64.ofNat sorted.length) ++ sorted.flatMap x.varint.encode

end FabricPeerExt.PvtData
