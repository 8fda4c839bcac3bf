/-
FabricPeerExt.Idstore.Store — the inventory of ledgers of a peer, `pkg/idstore/store_impl.go` and
`couchdoc_conv.go`.

Documents are modelled by their fields, all of which are strings. Every request can fail
(`Lib/Faulty.lean`). A query delivers at most `findLimit` documents.
-/
import FabricPeerExt.Lib.Faulty
import FabricPeerExt.PvtData.Types

namespace FabricPeerExt.Idstore

open Lib
open PvtData (GoString Err liftErr wrapErr)

/-! ## Documents -/

/-- The fields of the documents: "_id", "type", "ledger_id", "status", "under_construction"
and "format". -/
inductive DocField where
  | idField
  | inventoryTypeField
  | inventoryNameLedgerIDField
  | statusField
  | underConstructionLedgerKey
  | formatField
  deriving DecidableEq, Repr

open DocField

/-- `jsonValue`. The values are strings. -/
abbrev JsonValue := GoMap DocField GoString

/-- A document: its fields and its attachment. -/
structure CouchDoc where
  jsonValue : JsonValue
  attachments : List (GoString × Bytes)

/-- `metadataID`, "metadata". -/
def metadataID : GoString := [109, 101, 116, 97, 100, 97, 116, 97]

/-- `blockAttachmentName`, "genesis_block". -/
def blockAttachmentName : GoString :=
  [103, 101, 110, 101, 115, 105, 115, 95, 98, 108, 111, 99, 107]

/-- `typeLedgerName`, "ledger". -/
def typeLedgerName : GoString := [108, 101, 100, 103, 101, 114]

/-- `ledgerKeyPrefix`, "ledger_". -/
def ledgerKeyPrefix : GoString := [108, 101, 100, 103, 101, 114, 95]

/-- `dataformat.CurrentFormat`, "2.0". -/
def currentFormat : GoString := [50, 46, 48]

def previousFormat : GoString := []

/-- `msgs.Status` of a ledger. -/
inductive Status where
  | active
  | inactive
  deriving DecidableEq, Repr

/-- `Status.String`: "ACTIVE" and "INACTIVE". -/
def Status.string : Status → GoString
  | .active => [65, 67, 84, 73, 86, 69]
  | .inactive => [73, 78, 65, 67, 84, 73, 86, 69]

/-- `ledgerIDToKey`. -/
def ledgerIDToKey (ledgerID : GoString) : GoString := ledgerKeyPrefix ++ ledgerID

/-- `ledgerToCouchDoc` and `blockToAttachment`. -/
def ledgerToCouchDoc (ledgerID : GoString) (blockBytes : Bytes) (status : GoString) : CouchDoc where
  jsonValue := (∅ : JsonValue).insertAll
    [(idField, ledgerIDToKey ledgerID), (inventoryTypeField, typeLedgerName),
      (inventoryNameLedgerIDField, ledgerID), (statusField, status)]
  attachments := [(blockAttachmentName, blockBytes)]

/-- `createMetadataDoc`. -/
def createMetadataDoc (constructionLedger format : GoString) : CouchDoc where
  jsonValue := (∅ : JsonValue).insertAll
    [(idField, metadataID), (underConstructionLedgerKey, constructionLedger), (formatField, format)]
  attachments := []

/-- `getGenesysBlock`. -/
def getGenesysBlock (attachments : List (GoString × Bytes)) : Option Bytes :=
  (attachments.find? fun v => v.1 = blockAttachmentName).map Prod.snd

/-- `getUnderConstructionID`. -/
def getUnderConstructionID (metadata : Option JsonValue) : GoString :=
  (metadata.bind fun m => m.lookup underConstructionLedgerKey).getD []

/-! ## The database -/

/-- `Store`: the database, and whether it is closed. -/
structure Store where
  db : DocStore CouchDoc
  closed : Bool

abbrev StoreM (α : Type) := Faulty Store Err α

def requestFailed : Err := .plain "CouchDB request failed"

def withMessage {α : Type} (msg : String) (m : StoreM α) : StoreM α := m.mapError (.wrap msg)

def couchIsEmpty : StoreM Bool := .op requestFailed fun s => (s, false)

def readDoc (id : GoString) : StoreM (Option (StoredDoc CouchDoc)) :=
  .op requestFailed fun s => (s, s.db.lookup id)

def saveDoc (id : GoString) (rev : Option Nat) (couchDoc : CouchDoc) : StoreM (Option Nat) :=
  .op requestFailed fun s =>
    -- a revision that is missing or rejected is replaced by the stored one
    let rev := if s.db.currentRev id = rev then rev else s.db.currentRev id
    ({ s with db := s.db.put ⟨id, rev, false, couchDoc⟩ }, some (rev.getD 0 + 1))

/-- `BatchUpdateDocuments` of new documents; the responses are not looked at. -/
def batchUpdateDocuments (documents : List CouchDoc) : StoreM Unit :=
  .op requestFailed fun s =>
    ({ s with db := s.db.bulk (documents.map fun doc =>
        ⟨(doc.jsonValue.lookup idField).getD [], none, false, doc⟩) }, ())

def docsOfType (db : DocStore CouchDoc) (inventoryType : GoString) : List (GoString × CouchDoc) :=
  (db.toList.map fun p => (p.1, p.2.body)).filter fun p =>
    p.2.jsonValue.lookup inventoryTypeField = some inventoryType

/-- `queryInventory`, by the type in the query. -/
def queryInventory (findLimit : Nat) (inventoryType : GoString) :
    StoreM (List (GoString × CouchDoc)) :=
  .op requestFailed fun s => (s, (docsOfType s.db inventoryType).take findLimit)

/-! ## The store -/

/-- `Store.isClosed`, with the error that the callers return. -/
def checkOpen : StoreM Unit := do
  if ← .reads Store.closed then .fail (.plain "ID store is closed") else pure ()

/-- `Store.getMetadata`. -/
def getMetadata : StoreM (Option JsonValue × Option Nat) := do
  let doc ← withMessage "retrieval of metadata from CouchDB inventory failed" (readDoc metadataID)
  pure (doc.map fun d => d.body.jsonValue, doc.map StoredDoc.rev)

/-- What `SetUnderConstructionFlag` and `UnsetUnderConstructionFlag` do: the metadata with the
ledger, and the format that is stored. -/
def updateUnderConstruction (ledgerID : GoString) : StoreM Unit := do
  checkOpen
  let (metadata, rev) ← getMetadata
  let format := (metadata.bind fun m => m.lookup formatField).getD []
  let _ ← withMessage "update of metadata in CouchDB failed"
    (saveDoc metadataID rev (createMetadataDoc ledgerID format))

/-- `Store.SetUnderConstructionFlag`. -/
def setUnderConstructionFlag (ledgerID : GoString) : StoreM Unit :=
  updateUnderConstruction ledgerID

/-- `Store.UnsetUnderConstructionFlag`. -/
def unsetUnderConstructionFlag : StoreM Unit := updateUnderConstruction []

/-- `Store.LedgerIDExists`. -/
def ledgerIDExists (ledgerID : GoString) : StoreM Bool := do
  checkOpen
  let doc ← readDoc (ledgerIDToKey ledgerID)
  pure doc.isSome

/-- `Store.CreateLedgerID`. -/
def createLedgerID {β : Type} (proto : Marshaler β) (ledgerID : GoString) (gb : β) :
    StoreM Unit := do
  checkOpen
  if ← ledgerIDExists ledgerID then .fail (.plain "ledger already exists")
  else
    let blockBytes ← .lift (wrapErr "marshaling block failed" (liftErr (proto.marshal gb)))
    withMessage "creation of ledger failed"
      (batchUpdateDocuments [ledgerToCouchDoc ledgerID blockBytes Status.active.string])
    unsetUnderConstructionFlag

/-- `Store.getLedgerIDValue`. -/
def getLedgerIDValue (ledgerID : GoString) :
    StoreM (Option JsonValue × Option Bytes × Option Nat) := do
  match ← readDoc (ledgerIDToKey ledgerID) with
  | none => pure (none, none, none)
  | some doc => pure (some doc.body.jsonValue, getGenesysBlock doc.body.attachments, some doc.rev)

def activeLedgerIDs : List (GoString × CouchDoc) → Except Err (List GoString)
  | [] => .ok []
  | r :: rs =>
    match r.2.jsonValue.lookup inventoryNameLedgerIDField with
    | none => .error (.plain "ledger inventory document is invalid")
    | some ledgerID =>
      match activeLedgerIDs rs with
      | .error e => .error e
      | .ok ledgers =>
        if r.2.jsonValue.lookup statusField = some Status.active.string then
          .ok (ledgerID :: ledgers)
        else .ok ledgers

/-- `Store.GetActiveLedgerIDs`. -/
def getActiveLedgerIDs (findLimit : Nat) : StoreM (List GoString) := do
  checkOpen
  let results ← queryInventory findLimit typeLedgerName
  .lift (activeLedgerIDs results)

/-- `Store.UpdateLedgerStatus`. -/
def updateLedgerStatus (ledgerID : GoString) (newStatus : Status) : StoreM Unit := do
  checkOpen
  match ← getLedgerIDValue ledgerID with
  | (none, _, _) => .fail (.plain "LedgerID does not exist")
  | (some ledgerMetadata, blockBytes, rev) =>
    if ledgerMetadata.lookup statusField = some newStatus.string then pure ()
    else
      let _ ← saveDoc (ledgerIDToKey ledgerID) rev
        (ledgerToCouchDoc ledgerID (blockBytes.getD []) newStatus.string)

/-- `Store.GetFormat`. -/
def getFormat : StoreM GoString := do
  checkOpen
  let (metadata, _) ← withMessage "unable to read metadata" getMetadata
  pure ((metadata.bind fun m => m.lookup formatField).getD previousFormat)

/-- `Store.checkUpgradeEligibility`. -/
def checkUpgradeEligibility : StoreM Bool := do
  if ← couchIsEmpty then pure false
  else
    let format ← getFormat
    if format = currentFormat then pure false
    else if format = previousFormat then pure true
    else .fail (.plain "unexpected format")

/-- `Store.activateLedger`. -/
def activateLedger (rev : Option Nat) (r : GoString × CouchDoc) : StoreM Unit := do
  let invalid : Err := .plain "ledger inventory document value is invalid"
  match r.2.jsonValue.lookup inventoryNameLedgerIDField with
  | none => .fail invalid
  | some ledgerID =>
    let blockBytes := (getGenesysBlock r.2.attachments).getD []
    if blockBytes = [] then .fail invalid
    else
      let _ ← withMessage "update of metadata in CouchDB failed"
        (saveDoc ledgerID rev (ledgerToCouchDoc ledgerID blockBytes Status.active.string))

/-- `Store.UpgradeFormat`. -/
def upgradeFormat (findLimit : Nat) : StoreM Unit := do
  checkOpen
  if ← checkUpgradeEligibility then
    match ← Faulty.attempt getMetadata with
    | .error _ => pure ()
    | .ok (metadata, rev) =>
      let rev ← withMessage "update of metadata in CouchDB failed"
        (saveDoc metadataID rev (createMetadataDoc (getUnderConstructionID metadata) currentFormat))
      let results ← queryInventory findLimit typeLedgerName
      Faulty.each (activateLedger rev) results
  else pure ()

/-- `Store.LedgerIDActive`. -/
def ledgerIDActive (ledgerID : GoString) : StoreM (Bool × Bool) := do
  checkOpen
  match ← getLedgerIDValue ledgerID with
  | (none, _, _) => pure (false, false)
  | (some value, _, _) => pure (value.lookup statusField = some Status.active.string, true)

/-- `Store.GetGenesisBlock`. -/
def getGenesisBlock {β : Type} (proto : Marshaler β) (ledgerID : GoString) : StoreM β := do
  checkOpen
  let (_, bytes, _) ← getLedgerIDValue ledgerID
  .lift (liftErr (proto.unmarshal (bytes.getD [])))

/-- `Store.Close`. -/
def close : StoreM Unit := .modifies fun s => { s with closed := true }

end FabricPeerExt.Idstore
