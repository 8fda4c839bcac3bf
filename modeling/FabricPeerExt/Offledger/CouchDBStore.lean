/-
FabricPeerExt.Offledger.CouchDBStore — the CouchDB store of off-ledger data,
`pkg/collections/offledger/storeprovider/store/couchdbstore/dbstore.go`.

A `jsonMap` is `none` if it is nil. An assignment to a nil map, and a type assertion that does not
hold, are panics.
-/
import FabricPeerExt.Lib.CouchDB
import FabricPeerExt.Lib.Float64
import FabricPeerExt.Offledger.Api

namespace FabricPeerExt.Offledger.CouchDBStore

open Lib
open Lib.CouchDB
open PvtData (GoString Err liftErr wrapErr)
open Offledger.Api

/-! ## Fields -/

def idField : Text := idName

def revField : Text := revName

def deletedField : Text := deletedName

def txnIDField : Text := ['~', 't', 'x', 'n', 'I', 'D']

def expiryField : Text := ['~', 'e', 'x', 'p', 'i', 'r', 'y']

def binaryWrapperField : Text := ['v', 'a', 'l', 'u', 'e', 'B', 'y', 't', 'e', 's']

def octetStream : Text := "application/octet-stream".toList

/-! ## Values in memory -/

/-- The numbers in a `jsonMap`. -/
inductive GoNumber where
  | float64 (f : Float64)
  | int64 (n : Int)

def GoNumber.literal : GoNumber → Number
  | float64 f => f.literal
  | int64 n => Number.ofInt n

/-- `jsonMap`, its members in an order. -/
abbrev JsonMap := OrderedMap Text (Json GoNumber)

/-- A number as `json.Unmarshal` leaves it: nothing is stored if it is out of range. -/
def decodeNumber (n : Number) : Json GoNumber :=
  match parseFloat n with
  | some f => .number (.float64 f)
  | none => .null

def outOfRange (n : Number) : Bool := (parseFloat n).isNone

/-- `jsonUnmarshal` into an empty map: what is in the map then, and the error. A number out of
range is an error, but the rest of the object is decoded. -/
def jsonUnmarshal (data : Bytes) : Option JsonMap × Option String :=
  match Json.parse data with
  | none => (some [], some "invalid character")
  | some .null => (none, none)
  | some (.object members) =>
    (some (Json.toMap (Json.substMembers decodeNumber members)),
      if (Json.numbersMembers members).any outOfRange then some "cannot unmarshal number" else none)
  | some _ => (some [], some "cannot unmarshal into Go value of type map")

/-- `jsonMap.toBytes`. -/
def toBytes : Option JsonMap → Bytes
  | none => Json.render .null
  | some m => Json.render ((Json.object m).map GoNumber.literal)

def isReserved (fieldName : Text) : Bool :=
  fieldName.head? = some '~' ∨ fieldName.head? = some '_'

/-- `jsonMap.checkReservedFieldsNotPresent`. -/
def checkReservedFieldsNotPresent (m : JsonMap) : Except Err Unit :=
  if m.any fun p => isReserved p.1 then
    .error (.plain "field is not valid for the CouchDB state database")
  else .ok ()

/-! ## Documents -/

/-- `docType`. -/
inductive DocType where
  | typeDelete
  | typeJSON
  | typeAttachment
  deriving DecidableEq

/-- `jsonMapFromValue`. -/
def jsonMapFromValue (value : Option Value) : Except Err (Option JsonMap × DocType) :=
  match value.bind Value.value with
  | none => .ok (some [], .typeDelete)
  | some data =>
    match jsonUnmarshal data with
    | (some m, none) =>
      match checkReservedFieldsNotPresent m with
      | .error e => .error e
      | .ok () => .ok (some m, .typeJSON)
    | (m, _) => .ok (m, .typeAttachment)

/-- `getUnixExpiry`. -/
def getUnixExpiry (expiry : Time) : Int :=
  if expiry.isZero then 0 else expiry.unixNano.tdiv 1000000

def setDeleted (m : JsonMap) (docType : DocType) : JsonMap :=
  if docType = .typeDelete then m.set deletedField (.bool true) else m

def setValueFields (m : JsonMap) : Option Value → JsonMap
  | none => m
  | some v =>
    (m.set txnIDField (.string (toText v.txID))).set expiryField
      (.number (.int64 (getUnixExpiry v.expiryTime)))

def setRevision (m : JsonMap) (revision : GoString) : JsonMap :=
  if revision = [] then m else m.set revField (.string (toText revision))

/-- The assignments in `newJSONMap`. A string is written with U+FFFD for what is not valid. -/
def withFields (m : JsonMap) (docType : DocType) (key revision : GoString)
    (value : Option Value) : JsonMap :=
  setRevision (setValueFields ((setDeleted m docType).set idField (.string (toText key))) value)
    revision

/-- `newJSONMap`. -/
def newJSONMap (key revision : GoString) (value : Option Value) :
    Except Err (Option JsonMap × DocType) :=
  match jsonMapFromValue value with
  | .error e => .error e
  | .ok (m, docType) =>
    if docType = .typeDelete ∧ revision = [] then .ok (none, .typeDelete)
    else
      match m with
      | none => .error (.panic "assignment to entry in nil map")
      | some m => .ok (some (withFields m docType key revision value), docType)

/-- `asAttachment`. -/
def asAttachment (value : Bytes) : Attachment := ⟨binaryWrapperField, octetStream, value⟩

/-! ## Reading -/

def int64 (n : Number) : Option Int :=
  let v : Int := if n.neg then -(n.int : Int) else n.int
  if n.frac = [] ∧ n.exp = none ∧ -2 ^ 63 ≤ v ∧ v < 2 ^ 63 then some v else none

/-- `getExpiry`. -/
def getExpiry (jsonResult : OrderedMap Text (Json Number)) : Except Err Time :=
  match (jsonResult.get expiryField).bind Json.asNumber with
  | none => .error (.plain "expiry is not a valid JSON number")
  | some jnExpiry =>
    match int64 jnExpiry with
    | none => .error (.plain "strconv.ParseInt")
    | some nExpiry =>
      if nExpiry = 0 then .ok .zero else .ok ⟨toInt64 (nExpiry * 1000000)⟩

def stringField (jsonResult : OrderedMap Text (Json Number)) (field : Text) :
    Except Err GoString :=
  match (jsonResult.get field).bind Json.asString with
  | none => .error (.panic "interface conversion: interface is not string")
  | some s => .ok (ofText s)

/-- The value of a document: of several attachments of the name the last one counts. -/
def documentValue (jsonResult : OrderedMap Text (Json Number)) :
    Option (List Attachment) → Option Bytes
  | some attachments =>
    (attachments.reverse.find? fun a => a.name = binaryWrapperField).map Attachment.attachmentBytes
  | none =>
    some (Json.render (.object
      ((((jsonResult.unset idField).unset revField).unset txnIDField).unset expiryField)))

def valueOfMap (jsonResult : OrderedMap Text (Json Number))
    (attachments : Option (List Attachment)) : Except Err Value :=
  match stringField jsonResult revField with
  | .error e => .error e
  | .ok revision =>
    match stringField jsonResult txnIDField with
    | .error e => .error e
    | .ok txID =>
      match getExpiry jsonResult with
      | .error e => .error e
      | .ok expiryTime => .ok ⟨documentValue jsonResult attachments, txID, expiryTime, revision⟩

/-- `unmarshalData`. -/
def unmarshalData (jsonValue : Bytes) (attachments : Option (List Attachment)) :
    Except Err Value :=
  match Json.parseFirst jsonValue with
  | none => .error (.plain "invalid character")
  | some (.object members, _) => valueOfMap (Json.toMap members) attachments
  | some (.null, _) => valueOfMap [] attachments
  | some _ => .error (.plain "cannot unmarshal into Go value of type map")

/-! ## The store -/

section
variable (srv : Server)

/-- `dbstore.fetchData`. -/
def fetchData (db : Database) (key : GoString) : Except Err (Option Value) :=
  match liftErr (srv.readDoc db key) with
  | .error e => .error e
  | .ok none => .ok none
  | .ok (some doc) => (unmarshalData doc.jsonValue doc.attachments).map some

/-- `dbstore.Get`. -/
def get (db : Database) (key : GoString) : Except Err (Option Value) :=
  wrapErr s!"Failed to load key [{asString key}] from db" (fetchData srv db key)

/-- `dbstore.GetMultiple`. -/
def getMultiple (db : Database) (keys : List GoString) : Except Err (List (Option Value)) :=
  collect (get srv db) keys

/-- `dbstore.fetchRevision`. -/
def fetchRevision (db : Database) (key : GoString) : Except Err GoString :=
  match wrapErr s!"Failed to load key [{asString key}] from db" (fetchData srv db key) with
  | .error e => .error e
  | .ok none => .ok []
  | .ok (some current) => .ok current.revision

def revisionFor (db : Database) (kv : KeyValue) : Except Err GoString :=
  match kv.value with
  | none => fetchRevision srv db kv.key
  | some v => if v.revision = [] then fetchRevision srv db kv.key else .ok v.revision

/-- `dbstore.createCouchDoc`. -/
def createCouchDoc (db : Database) (kv : KeyValue) : Except Err (Option CouchDoc) :=
  match revisionFor srv db kv with
  | .error e => .error e
  | .ok revision =>
    match newJSONMap kv.key revision kv.value with
    | .error e => .error e
    | .ok (none, .typeDelete) => .ok none
    | .ok (m, docType) =>
      .ok (some ⟨toBytes m, if docType = .typeAttachment then
        (kv.value.bind Value.value).map fun value => [asAttachment value] else none⟩)

/-- `dbstore.Put` as one step; `next` has its requests. -/
def put (db : Database) (keyVal : List KeyValue) : Database × Except Err Unit :=
  match collect (createCouchDoc srv db) keyVal with
  | .error e => (db, .error e)
  | .ok docs =>
    match docs.filterMap id with
    | [] => (db, .ok ())
    | doc :: docs =>
      match wrapErr s!"BatchUpdateDocuments failed for [{docs.length + 1}] documents"
          (liftErr (srv.batchUpdateDocuments db (doc :: docs))) with
      | .error e => (db, .error e)
      | .ok db' => (db', .ok ())

/-- The selector of `fetchExpiryDataQuery`: a stored expiry before the time. -/
def isExpired (now : Time) (doc : Document) : Bool :=
  match (doc.members.get expiryField).bind Json.asNumber with
  | none => false
  | some expiry => expiry.value ≠ 0 ∧ expiry.value < (now.unixNano.tdiv 1000000 : Int)

/-- `expiryData`, as the document it is written to. -/
def expiryData (id : Text) (doc : Document) : CouchDoc :=
  ⟨Json.render (.object [(idField, .string id), (revField, .string doc.rev),
    (deletedField, .bool true)]), none⟩

/-- `dbstore.DeleteExpiredKeys` as one step. -/
def deleteExpiredKeys (db : Database) (now : Time) : Database × Except Err Unit :=
  match (db.toList.filter fun p => isExpired now p.2).map fun p => expiryData p.1 p.2 with
  | [] => (db, .ok ())
  | doc :: docs =>
    match wrapErr s!"BatchUpdateDocuments failed for [{docs.length + 1}] documents"
        (liftErr (srv.batchUpdateDocuments db (doc :: docs))) with
    | .error e => (db, .error e)
    | .ok db' => (db', .ok ())

/-- The calls that change the database. -/
inductive Request where
  | put (keyVal : List KeyValue)
  | deleteExpiredKeys (now : Time)

def step (db : Database) : Request → Database
  | .put keyVal => (put srv db keyVal).1
  | .deleteExpiredKeys now => (deleteExpiredKeys srv db now).1

end

end FabricPeerExt.Offledger.CouchDBStore
