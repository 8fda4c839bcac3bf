/-
FabricPeerExt.PvtData.CouchConv — the documents of the store, `cdbpvtdatastore/couchdb_conv.go`:
one for each block, under its number with 64 digits, and one for the number of the last block.
-/
import FabricPeerExt.Lib.TypedMap
import FabricPeerExt.PvtData.KvEncoding

namespace FabricPeerExt.PvtData

open Lib

/-! ## Document ids -/

/-- `lastCommittedBlockID`, the text "lastCommittedBlock" -/
def lastCommittedBlockID : GoString :=
  [108, 97, 115, 116, 67, 111, 109, 109, 105, 116, 116, 101, 100, 66, 108, 111, 99, 107]

/-- `blockNumberToKey`: decimal, padded with zeros to 64 characters. -/
def blockNumberToKey (blockNum : UInt64) : GoString := (formatUint blockNum).leftpad 64 48

section
variable (x : Externals)

def dataId (key : DataKey) : GoString := hexEncode (encodeDataKey x key)

def expiryId (key : ExpiryKey) : GoString := hexEncode (encodeExpiryKey x key)

/-! ## Writing -/

/-- `dataEntriesToJSONValue`. -/
def dataEntriesToJSONValue (dataEntries : List DataEntry) : Except Err (GoMap GoString Bytes) :=
  match collect (encodePair (dataId x) (encodeDataValue x))
      (dataEntries.map fun de => (de.key, de.value)) with
  | .error e => .error e
  | .ok ps => .ok (GoMap.insertAll ∅ ps)

/-- `expiryEntriesToJSONValue`. -/
def expiryEntriesToJSONValue (expiryEntries : List ExpiryEntry) :
    Except Err (GoMap GoString Bytes × List GoString) :=
  match collect (encodePair (expiryId x) (encodeExpiryValue x))
      (expiryEntries.map fun ee => (ee.key, ee.value)) with
  | .error e => .error e
  | .ok ps => .ok (GoMap.insertAll ∅ ps,
      expiryEntries.map fun ee => blockNumberToKey ee.key.expiringBlk)

/-- `createPvtDataCouchDoc`: a block without data and expiry entries has no document. -/
def createPvtDataCouchDoc (dataEntries : List DataEntry) (expiryEntries : List ExpiryEntry)
    (blockNumber : UInt64) (rev : Option Nat) : Except Err (Option CouchDoc) :=
  if dataEntries.isEmpty && expiryEntries.isEmpty then .ok none
  else match dataEntriesToJSONValue x dataEntries with
    | .error e => .error e
    | .ok data => match expiryEntriesToJSONValue x expiryEntries with
      | .error e => .error e
      | .ok (expiry, expiringBlkNums) => .ok (some
          { id := blockNumberToKey blockNumber
            rev := rev
            deleted := false
            body := .blockPvtData
              { data := data, expiry := expiry, expiringBlkNums := expiringBlkNums } })

end

/-- `createLastCommittedBlockDoc`. -/
def createLastCommittedBlockDoc (committingBlockNum : UInt64) (rev : Option Nat) : CouchDoc :=
  { id := lastCommittedBlockID
    rev := rev
    deleted := false
    body := .lastCommittedBlock (formatUint committingBlockNum) }

/-! ## Reading -/

/-- `lookupLastBlock`: the number and the revision of the document, zero and none
if there is no document. The number is read as a signed one. -/
def lookupLastBlock (db : CouchDB) : Except Err (UInt64 × Option Nat) :=
  match db.lookup lastCommittedBlockID with
  | none => .ok (0, none)
  | some ⟨_, .blockPvtData _⟩ =>
      .error (.wrap "Unmarshal lastBlockResponse failed" (.plain "cannot unmarshal object"))
  | some ⟨rev, .lastCommittedBlock data⟩ =>
      match parseInt data with
      | .error e =>
          .error (.wrap "strconv.ParseInt lastBlockResponse.Data failed" (.plain e))
      | .ok lastBlockNum => .ok (UInt64.ofInt lastBlockNum, some rev)

/-- `blockPvtDataResponse`. -/
structure BlockPvtDataResponse extends BlockPvtData where
  id : GoString
  rev : Nat
  deleted : Bool
  deriving DecidableEq

def toBlockPvtDataResponse (id : GoString) : StoredDoc DocBody → Option BlockPvtDataResponse
  | ⟨rev, .blockPvtData d⟩ => some { toBlockPvtData := d, id := id, rev := rev, deleted := false }
  | ⟨_, .lastCommittedBlock _⟩ => none

/-- `retrieveBlockPvtData`, where the read does not fail. -/
def retrieveBlockPvtData (db : CouchDB) (id : GoString) : Except Err BlockPvtDataResponse :=
  match db.lookup id with
  | none => .error .notFoundInIndex
  | some doc => match toBlockPvtDataResponse id doc with
    | none => .error (.wrap "result from DB is not JSON encoded" (.plain "cannot unmarshal string"))
    | some r => .ok r

/-- The selector of `retrieveBlockExpiryData`: some expiring block of the document is
at or below `id`. -/
def matchesExpiry (id : GoString) (r : BlockPvtDataResponse) : Bool :=
  r.expiringBlkNums.any fun n => decide (n ≤ id)

def expiryMatches (db : CouchDB) (id : GoString) : List BlockPvtDataResponse :=
  (db.toList.filterMap fun p => toBlockPvtDataResponse p.1 p.2).filter (matchesExpiry id)

/-- `retrieveBlockExpiryData`: the documents with an expiring block at or below
`id`. The query sets no limit and its bookmark is dropped, so CouchDB's own limit
`findLimit` bounds the answer. -/
def retrieveBlockExpiryData (findLimit : Nat) (db : CouchDB) (id : GoString) :
    List BlockPvtDataResponse :=
  (expiryMatches db id).take findLimit

end FabricPeerExt.PvtData
