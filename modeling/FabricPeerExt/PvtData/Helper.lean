/-
FabricPeerExt.PvtData.Helper — `common/helper.go` and the `ExpiryData` methods of
`common/store.go`.
-/
import FabricPeerExt.Lib.Run
import FabricPeerExt.PvtData.Types

namespace FabricPeerExt.PvtData

open Lib

/-! ## Expiry data -/

namespace ExpiryData

/-- `NewExpiryData`. -/
def newExpiryData : ExpiryData := ⟨∅⟩

/-- `ExpiryData.getOrCreateCollections`. -/
def getOrCreateCollections (e : ExpiryData) (ns : GoString) : Collections :=
  (e.map.lookup ns).getD ⟨∅, ∅⟩

/-- `ExpiryData.AddPresentData`. -/
def addPresentData (e : ExpiryData) (ns coll : GoString) (txNum : UInt64) : ExpiryData :=
  let collections := e.getOrCreateCollections ns
  let txNums := (collections.map.lookup coll).getD []
  ⟨e.map.insert ns { collections with map := collections.map.insert coll (txNums ++ [txNum]) }⟩

/-- `ExpiryData.AddMissingData`. -/
def addMissingData (e : ExpiryData) (ns coll : GoString) : ExpiryData :=
  let collections := e.getOrCreateCollections ns
  ⟨e.map.insert ns
    { collections with missingDataMap := collections.missingDataMap.insert coll true }⟩

def Present (e : ExpiryData) (ns coll : GoString) (txNum : UInt64) : Prop :=
  ∃ c, e.map.lookup ns = some c ∧ ∃ l, c.map.lookup coll = some l ∧ txNum ∈ l

def Missing (e : ExpiryData) (ns coll : GoString) : Prop :=
  ∃ c, e.map.lookup ns = some c ∧ ∃ b, c.missingDataMap.lookup coll = some b

end ExpiryData

/-- `neverExpires`. -/
def neverExpires (expiringBlkNum : UInt64) : Bool := expiringBlkNum = maxUint64

/-! ## The entries of a block -/

/-- `prepareDataEntries`. -/
def prepareDataEntries (blockNum : UInt64) (pvtData : List TxPvtData) : List DataEntry :=
  pvtData.flatMap fun txPvtdata =>
    txPvtdata.writeSet.nsPvtRwset.flatMap fun nsPvtdata =>
      nsPvtdata.collectionPvtRwset.map fun collPvtdata =>
        { key := { ns := nsPvtdata.namespaceName, coll := collPvtdata.collectionName,
                   blkNum := blockNum, txNum := txPvtdata.seqInBlock },
          value := collPvtdata }

/-- The body of the loop in `prepareMissingDataEntries`: sets the bit of a
transaction in the bitmap of `key`, which is created if need be. -/
def setMissing (entries : GoMap MissingDataKey BitSet) (key : MissingDataKey) (txNum : UInt64) :
    GoMap MissingDataKey BitSet :=
  entries.insert key (((entries.lookup key).getD BitSet.empty).set txNum)

/-- The reports of a block one by one, as the two nested loops over the map
meet them. -/
def missingReports (missingPvtData : TxMissingPvtDataMap) : List (UInt64 × MissingPvtData) :=
  missingPvtData.toList.flatMap fun p => p.2.map fun nsColl => (p.1, nsColl)

/-- `prepareMissingDataEntries`: the bitmaps of the collections the peer is
eligible for, and those of the others. -/
def prepareMissingDataEntries (committingBlk : UInt64) (missingPvtData : TxMissingPvtDataMap) :
    GoMap MissingDataKey BitSet × GoMap MissingDataKey BitSet :=
  (missingReports missingPvtData).foldl
    (fun acc r =>
      let key : MissingDataKey :=
        { ns := r.2.namespaceName, coll := r.2.collection, blkNum := committingBlk }
      match r.2.isEligible with
      | true => (setMissing acc.1 key r.1, acc.2)
      | false => (acc.1, setMissing acc.2 key r.1))
    (∅, ∅)

/-- `getOrCreateExpiryData`. -/
def getOrCreateExpiryData (mapByExpiringBlk : GoMap UInt64 ExpiryData) (expiringBlk : UInt64) :
    ExpiryData :=
  (mapByExpiringBlk.lookup expiringBlk).getD ExpiryData.newExpiryData

section
variable (btlPolicy : BtlPolicy)

/-- What `prepareExpiryEntriesForPresentData` and `prepareExpiryEntriesForMissingData`
share: `add` extends the expiry data of the block at which `key` expires, if it does. -/
def prepareExpiryEntriesFor (add : ExpiryData → ExpiryData) (key : NsCollBlk)
    (mapByExpiringBlk : GoMap UInt64 ExpiryData) : Except Err (GoMap UInt64 ExpiryData) :=
  match btlPolicy.getExpiringBlock key.ns key.coll key.blkNum with
  | .error e => .error e
  | .ok expiringBlk =>
    if neverExpires expiringBlk then .ok mapByExpiringBlk
    else .ok (mapByExpiringBlk.insert expiringBlk
      (add (getOrCreateExpiryData mapByExpiringBlk expiringBlk)))

/-- `prepareExpiryEntriesForPresentData`. -/
def prepareExpiryEntriesForPresentData (mapByExpiringBlk : GoMap UInt64 ExpiryData)
    (dataKey : DataKey) : Except Err (GoMap UInt64 ExpiryData) :=
  prepareExpiryEntriesFor btlPolicy
    (fun e => e.addPresentData dataKey.ns dataKey.coll dataKey.txNum) dataKey.toNsCollBlk
    mapByExpiringBlk

/-- `prepareExpiryEntriesForMissingData`. -/
def prepareExpiryEntriesForMissingData (mapByExpiringBlk : GoMap UInt64 ExpiryData)
    (missingKey : MissingDataKey) : Except Err (GoMap UInt64 ExpiryData) :=
  prepareExpiryEntriesFor btlPolicy
    (fun e => e.addMissingData missingKey.ns missingKey.coll) missingKey mapByExpiringBlk

/-- The loops of `prepareExpiryEntries` over the present data, the eligible and
the ineligible missing data. -/
def mapByExpiringBlk (dataEntries : List DataEntry)
    (elgMissingDataEntries inelgMissingDataEntries : GoMap MissingDataKey BitSet) :
    Except Err (GoMap UInt64 ExpiryData) :=
  match forEach (fun m de => prepareExpiryEntriesForPresentData btlPolicy m de.key)
      ∅ dataEntries with
  | .error e => .error e
  | .ok m =>
    match forEach (prepareExpiryEntriesForMissingData btlPolicy) m
        elgMissingDataEntries.keys with
    | .error e => .error e
    | .ok m => forEach (prepareExpiryEntriesForMissingData btlPolicy) m
        inelgMissingDataEntries.keys

/-- `prepareExpiryEntries`. -/
def prepareExpiryEntries (committingBlk : UInt64) (dataEntries : List DataEntry)
    (elgMissingDataEntries inelgMissingDataEntries : GoMap MissingDataKey BitSet) :
    Except Err (List ExpiryEntry) :=
  match mapByExpiringBlk btlPolicy dataEntries elgMissingDataEntries inelgMissingDataEntries with
  | .error e => .error e
  | .ok m => .ok (m.toList.map fun p =>
      { key := { expiringBlk := p.1, committingBlk := committingBlk }, value := p.2 })

/-- `PrepareStoreEntries`. -/
def prepareStoreEntries (blockNum : UInt64) (pvtData : List TxPvtData)
    (missingPvtData : TxMissingPvtDataMap) : Except Err StoreEntries :=
  let dataEntries := prepareDataEntries blockNum pvtData
  let missing := prepareMissingDataEntries blockNum missingPvtData
  match prepareExpiryEntries btlPolicy blockNum dataEntries missing.1 missing.2 with
  | .error e => .error e
  | .ok expiryEntries => .ok
      { dataEntries := dataEntries
        expiryEntries := expiryEntries
        elgMissingDataEntries := missing.1
        inelgMissingDataEntries := missing.2 }

/-- `IsExpired`. -/
def isExpired (key : NsCollBlk) (latestBlkNum : UInt64) : Except Err Bool :=
  match btlPolicy.getExpiringBlock key.ns key.coll key.blkNum with
  | .error e => .error e
  | .ok expiringBlk => .ok (decide (expiringBlk ≤ latestBlkNum))

end

/-- `PassesFilter`. -/
def passesFilter (dataKey : DataKey) (filter : PvtNsCollFilter) : Bool :=
  match filter with
  | none => true
  | some has => has dataKey.ns dataKey.coll

/-! ## The keys of an expiry entry -/

def deriveDataKeys (expiryEntry : ExpiryEntry) : List DataKey :=
  expiryEntry.value.map.toList.flatMap fun p =>
    p.2.map.toList.flatMap fun q =>
      q.2.map fun txNum =>
        { ns := p.1, coll := q.1, blkNum := expiryEntry.key.committingBlk, txNum := txNum }

def deriveMissingDataKeys (expiryEntry : ExpiryEntry) : List MissingDataKey :=
  expiryEntry.value.map.toList.flatMap fun p =>
    p.2.missingDataMap.toList.map fun q =>
      { ns := p.1, coll := q.1, blkNum := expiryEntry.key.committingBlk }

/-- `DeriveKeys`. -/
def deriveKeys (expiryEntry : ExpiryEntry) : List DataKey × List MissingDataKey :=
  (deriveDataKeys expiryEntry, deriveMissingDataKeys expiryEntry)

end FabricPeerExt.PvtData
