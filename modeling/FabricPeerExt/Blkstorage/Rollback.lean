/-
FabricPeerExt.Blkstorage.Rollback — `pkg/blkstorage/cdbblkstorage/rollback.go`, with
`readDocRange` of `couchdoc_conv.go` and the recording of the height in `reset.go`. The databases
work: no request fails.
-/
import FabricPeerExt.Blkstorage.BlockStore

namespace FabricPeerExt.Blkstorage

open Lib
open PvtData (GoString Err)

/-! ## Ranges of documents -/

def sortedDocs (db : CouchDB) : List (GoString × StoredDoc Body) :=
  db.toList.insertionSort fun p q => p.1 ≤ q.1

def docsBetween (db : CouchDB) (startKey endKey : GoString) : List (GoString × StoredDoc Body) :=
  (sortedDocs db).filter fun p => startKey ≤ p.1 ∧ p.1 < endKey

def readDocPage (db : CouchDB) (startKey endKey : GoString) (limit : Nat) :
    List (GoString × StoredDoc Body) × GoString :=
  let rows := docsBetween db startKey endKey
  (rows.take limit, match rows[limit]? with
    | some row => row.1
    | none => endKey)

/-- `isCouchInternalKey`. -/
def isCouchInternalKey (key : GoString) : Bool := key.head? = some 95

def readDocPages (db : CouchDB) (endKey : GoString) (queryLimit : Nat) :
    Nat → GoString → List (GoString × StoredDoc Body)
  | 0, _ => []
  | fuel + 1, startKey =>
    let (results, nextStartKey) := readDocPage db startKey endKey queryLimit
    let filteredResults := results.filter fun doc => !isCouchInternalKey doc.1
    if nextStartKey = [] ∨ nextStartKey = endKey then filteredResults
    else filteredResults ++ readDocPages db endKey queryLimit fuel nextStartKey

/-- `readDocRange`. There are no more pages than documents, and one for the end. -/
def readDocRange (db : CouchDB) (startKey endKey : GoString) (queryLimit : Int) :
    List (GoString × StoredDoc Body) :=
  readDocPages db endKey (if queryLimit ≤ 0 then 1 else queryLimit.toNat) (db.toList.length + 1)
    startKey

/-- `addDeletedFlagToCouchDoc`: the JSON value that was read has the id and the revision. -/
def addDeletedFlagToCouchDoc (doc : GoString × StoredDoc Body) : Doc Body :=
  ⟨doc.1, some doc.2.rev, true, ⟨doc.2.body.fields, []⟩⟩

/-! ## Rollback -/

section
variable (x : Externals)

def previouslyRecordedHt (db : CouchDB) : Except Err UInt64 :=
  match readDoc db preResetHeightKey with
  | none => .ok 0
  | some doc => match doc.fields.lookup .height with
    | some (.string height) => match parseUint height with
      | .error e => .error (.plain e)
      | .ok n => .ok n
    | _ => .error (.panic "interface conversion")

/-- `recordHeightIfGreaterThanPreviousRecording` of `reset.go`. -/
def recordHeightIfGreaterThanPreviousRecording (db : Databases) : Databases × Except Err Unit :=
  match newCDBBlockStore x ⟨0, 0⟩ none db with
  | (db, .error e) => (db, .error e)
  | (_, .ok blockStore) => match previouslyRecordedHt blockStore.db.blockStore with
    | .error e => (blockStore.db, .error e)
    | .ok previous =>
      let currentHt := blockStore.cpInfo.lastBlockNumber + 1
      if previous < currentHt then
        ({ blockStore.db with
          blockStore := saveDoc blockStore.db.blockStore preResetHeightKey
            ⟨(∅ : GoMap Field JsonValue).insert .height (.string (formatUint currentHt)), []⟩ },
          .ok ())
      else (blockStore.db, .ok ())

/-- `Rollback`. The document of the target block is dereferenced without a check. -/
def rollback (committer : Bool) (internalQueryLimit : Int) (db : Databases)
    (targetBlockNum : UInt64) : Databases × Except Err Unit :=
  match recordHeightIfGreaterThanPreviousRecording x db with
  | (db, .error e) => (db, .error e)
  | (db, .ok ()) => match newCDBBlockStore x ⟨0, 0⟩ none db with
    | (db, .error e) => (db, .error e)
    | (_, .ok blockStore) =>
      let docs := readDocRange blockStore.db.blockStore (blockNumberToKey (targetBlockNum + 1))
        (blockNumberToKey (blockStore.cpInfo.lastBlockNumber + 1)) internalQueryLimit
      let blockStore := { blockStore with db := { blockStore.db with
        blockStore := blockStore.db.blockStore.bulk (docs.map addDeletedFlagToCouchDoc) } }
      match readDoc blockStore.db.blockStore (blockNumberToKey targetBlockNum) with
      | none =>
        (blockStore.db, .error (.panic "invalid memory address or nil pointer dereference"))
      | some doc => match couchAttachmentsToBlock x doc.attachments with
        | .error e => (blockStore.db, .error e)
        | .ok lastBlock => match blockStore.checkpointBlock x committer none lastBlock with
          | (s, r) => (s.db, r)

end

end FabricPeerExt.Blkstorage
