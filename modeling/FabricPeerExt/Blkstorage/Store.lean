/-
FabricPeerExt.Blkstorage.Store — the documents of blocks and transactions,
`pkg/blkstorage/cdbblkstorage/store.go`.

`SaveDoc` replaces the document of a block; the bulk request for the transactions leaves existing
documents as they are.
-/
import FabricPeerExt.Blkstorage.Conv

namespace FabricPeerExt.Blkstorage

open Lib
open PvtData (GoString Err)

/-! ## Databases -/

/-- The databases of a `store`. -/
structure Databases where
  blockStore : CouchDB
  txnStore : CouchDB

def Databases.empty : Databases := ⟨∅, ∅⟩

def readDoc (db : CouchDB) (id : GoString) : Option Body := (db.lookup id).map StoredDoc.body

/-- `SaveDoc` without a revision: that of the stored document is used. -/
def saveDoc (db : CouchDB) (id : GoString) (body : Body) : CouchDB :=
  db.put ⟨id, db.currentRev id, false, body⟩

/-- The request of `AddBlock` that fails. A request for one document that reports an error has
written nothing: a write that is done and whose answer is lost (`lost` of `Lib/Faulty.lean`) is
not among these. -/
inductive AddFault where
  /-- The block document is not written. -/
  | block (cause : Err)
  /-- The bulk request fails; the documents of some IDs were written. -/
  | transactions (applied : GoString → Bool) (cause : Err)
  /-- The bulk request succeeds, but only for the documents of some IDs. -/
  | transactionDocuments (applied : GoString → Bool)
  /-- The checkpoint is not written. -/
  | checkpoint (cause : Err)

/-! ## Writing -/

section
variable (x : Externals)

/-- `store.storeBlock`, which saves the document of the block. -/
def storeBlock (fault : Option AddFault) (db : CouchDB) (block : Block) :
    CouchDB × Except Err Unit :=
  match blockToCouchDoc x block with
  | .error e => (db, .error (.wrap "converting block to couchDB document failed" e))
  | .ok doc => match fault with
    | some (.block cause) => (db, .error (.wrap "adding block to couchDB failed" cause))
    | _ => (saveDoc db (blockNumberToKey block.header.number) doc, .ok ())

/-- `store.storeTransactions`: one bulk request without revisions. -/
def storeTransactions (fault : Option AddFault) (db : CouchDB) (block : Block) :
    CouchDB × Except Err Unit :=
  match blockToTxnCouchDocs x block with
  | .error e => (db, .error (.wrap "converting block to couchDB txn documents failed" e))
  | .ok [] => (db, .ok ())
  | .ok docs => match fault with
    | some (.transactions applied cause) =>
      (db.bulk (docs.filter fun doc => applied doc.id),
        .error (.wrap "adding block to couchDB failed" cause))
    | some (.transactionDocuments applied) =>
      (db.bulk (docs.filter fun doc => applied doc.id), .ok ())
    | _ => (db.bulk docs, .ok ())

/-- `store.store`: the block, and then its transactions. -/
def store (fault : Option AddFault) (db : Databases) (block : Block) :
    Databases × Except Err Unit :=
  match storeBlock x fault db.blockStore block with
  | (blockStore, .error e) => ({ db with blockStore }, .error e)
  | (blockStore, .ok ()) => match storeTransactions x fault db.txnStore block with
    | (txnStore, r) => (⟨blockStore, txnStore⟩, r)

/-! ## Reading -/

/-- `store.RetrieveBlockByNumber`. -/
def retrieveBlockByNumber (db : CouchDB) (blockNum : UInt64) : Except Err Block :=
  match readDoc db (blockNumberToKey blockNum) with
  | none => .error .notFoundInIndex
  | some doc => match couchAttachmentsToBlock x doc.attachments with
    | .error e => .error (.wrap s!"unmarshal of block [{blockNum}] from couchDB failed" e)
    | .ok block => .ok block

def queryByHash (db : CouchDB) (blockHashHex : GoString) : List Body :=
  (db.toList.map fun p => p.2.body).filter fun doc =>
    doc.fields.lookup .header = some (.header blockHashHex)

/-- `RetrieveBlockByHash`, with `retrieveBlockQuery`: the first result counts. -/
def retrieveBlockByHash (db : CouchDB) (blockHash : Bytes) : Except Err Block :=
  match queryByHash db (hexEncode blockHash) with
  | [] => .error .notFoundInIndex
  | doc :: _ => match doc.attachments with
    | [] => .error (.plain "block bytes not found")
    | attachments => couchAttachmentsToBlock x attachments

/-- `retrieveJSONQuery` for a field of a transaction document. -/
def txnField (txnStore : CouchDB) (field : Field) (name : String) (txID : GoString) :
    Except Err GoString :=
  match readDoc txnStore txID with
  | none => .error .notFoundInIndex
  | some doc => match doc.fields.lookup field with
    | none => .error (.plain s!"{name} was not found for transaction ID [{text txID}]")
    | some (.string value) => .ok value
    | some _ => .error (.plain s!"{name} has invalid type for transaction ID [{text txID}]")

/-- `store.retrieveBlockHashByTxID`. -/
def retrieveBlockHashByTxID (txnStore : CouchDB) (txID : GoString) : Except Err Bytes :=
  match txnField txnStore .blockHash "block hash" txID with
  | .error e => .error e
  | .ok blockHashStored => match hexDecode blockHashStored with
    | .error e =>
      .error (.wrap s!"block hash was invalid for transaction ID [{text txID}]" (.plain e))
    | .ok blockHash => .ok blockHash

/-- `store.RetrieveBlockByTxID`. -/
def retrieveBlockByTxID (db : Databases) (txID : GoString) : Except Err Block :=
  match retrieveBlockHashByTxID db.txnStore txID with
  | .error e => .error e
  | .ok blockHash => retrieveBlockByHash x db.blockStore blockHash

/-- `RetrieveTxByID`. The store attaches no envelopes, so the block is always read. -/
def retrieveTxByID (db : Databases) (txID : GoString) : Except Err Envelope :=
  match readDoc db.txnStore txID with
  | none => .error .notFoundInIndex
  | some _ => match retrieveBlockByTxID x db txID with
    | .error e => .error e
    | .ok block => extractTxnEnvelopeFromBlock x txID block.data

end

/-- `store.RetrieveTxValidationCodeByTxID`, without the code beside an error. -/
def retrieveTxValidationCodeByTxID (db : Databases) (txID : GoString) : Except Err Int :=
  match txnField db.txnStore .validationCode "validation code" txID with
  | .error e => .error e
  | .ok txnValidationCodeStored => match parseInt16 txnValidationCodeStored with
    | .error e =>
      .error (.wrap s!"validation code was invalid for transaction ID [{text txID}]" (.plain e))
    | .ok txnValidationCode => .ok txnValidationCode

/-! ## Export -/

/-- A file of a snapshot: the format byte, and what was encoded behind it. -/
structure SnapshotFile (α : Type) where
  format : UInt8
  items : List α
  deriving DecidableEq

def snapshotFileFormat : UInt8 := 1

/-- `exportTxIDs`: the data file and the number of IDs. The query has no sort clause, so the
documents come in any order. -/
def exportTxIDs (order : RangeOrder GoString) (txnStore : CouchDB) :
    Option (SnapshotFile GoString × Nat) :=
  match order.order txnStore.keys with
  | [] => none
  | ids => some (⟨snapshotFileFormat, ids⟩, ids.length)

end FabricPeerExt.Blkstorage
