/-
FabricPeerExt.LedgerConfig.Manager — the configuration manager, `pkg/config/ledgerconfig/mgr`.

`Kv` is the content of the state store for the namespace of the manager; an operation writes a
`Batch` and does not see its own writes. The store does not fail. Maps are ranged over in any
order.
-/
import FabricPeerExt.LedgerConfig.Keys
import FabricPeerExt.LedgerConfig.ValueJson

namespace FabricPeerExt.LedgerConfig

open Lib
open PvtData (GoString Err wrapErr)
open Common

/-! ## Queries, `querymgr.go` -/

/-- `getConfig`. A document that cannot be read counts as none: the error that is returned
wraps the nil error of the read before. -/
def getConfig (store : Kv) (key : Key) : Option Value :=
  match store.lookup (marshalKey key) with
  | none => none
  | some bytes => if bytes = [] then none else unmarshalValue bytes

/-- `getKeyFromCompositeKey`. Without attributes the Go code indexes out of range. -/
def getKeyFromCompositeKey (compositeKey : GoString) : Except Err Key :=
  match split compositeKey with
  | none => .error (.panic "index out of range")
  | some (_, compositeKeyParts) =>
    match compositeKeyParts.getLast? with
    | none => .error (.panic "index out of range")
    | some part => unmarshalKey part

/-- `getNext`. -/
def getNext (store : Kv) (pair : GoString × Bytes) : Except Err KeyValue :=
  match getKeyFromCompositeKey pair.1 with
  | .error e => .error e
  | .ok k => .ok ⟨k, getConfig store k⟩

/-- `GetStateByPartialCompositeKey` of the retriever: the pairs its iterator delivers. -/
def getStateByPartialCompositeKey (store : Kv) (objectType : GoString)
    (attributes : List GoString) : List (GoString × Bytes) :=
  let range := createRangeKeysForPartialCompositeKey objectType attributes
  scan store range.1 range.2

/-! ### Filters, `configresults.go` -/

/-- `mustHaveAppName`. -/
def mustHaveAppName (kv : KeyValue) (criteria : Criteria) : Bool :=
  kv.key.appName = criteria.appName

/-- `mustHavePeerID`. -/
def mustHavePeerID (kv : KeyValue) (criteria : Criteria) : Bool :=
  kv.key.peerID = criteria.peerID

def mayHave (keyField : Key → GoString) (field : Criteria → GoString) (kv : KeyValue)
    (criteria : Criteria) : Bool :=
  field criteria = [] ∨ keyField kv.key = field criteria

/-- `mayHaveAppName`. -/
def mayHaveAppName : KeyValue → Criteria → Bool := mayHave Key.appName Criteria.appName

/-- `mayHaveAppVersion`. -/
def mayHaveAppVersion : KeyValue → Criteria → Bool := mayHave Key.appVersion Criteria.appVersion

/-- `mayHaveComponentName`. -/
def mayHaveComponentName : KeyValue → Criteria → Bool :=
  mayHave Key.componentName Criteria.componentName

/-- `mayHaveComponentVersion`. -/
def mayHaveComponentVersion : KeyValue → Criteria → Bool :=
  mayHave Key.componentVersion Criteria.componentVersion

/-- `ConfigResults.and`. -/
def andFilter (r : List KeyValue) (criteria : Criteria)
    (p : List (KeyValue → Criteria → Bool)) : List KeyValue :=
  r.filter fun kv => p.all fun pred => pred kv criteria

/-- `ConfigResults.filterByPeer`. -/
def filterByPeer (r : List KeyValue) (criteria : Criteria) : List KeyValue :=
  andFilter r criteria [mustHavePeerID, mayHaveAppName, mayHaveAppVersion, mayHaveComponentName,
    mayHaveComponentVersion]

/-- `ConfigResults.filterByApp`. -/
def filterByApp (r : List KeyValue) (criteria : Criteria) : List KeyValue :=
  andFilter r criteria [mustHaveAppName, mayHaveAppVersion, mayHaveComponentName,
    mayHaveComponentVersion]

/-- `ConfigResults.Filter`. -/
def filterResults (r : List KeyValue) (criteria : Criteria) : List KeyValue :=
  if criteria.peerID = [] ∧ criteria.appName = [] then r
  else if criteria.peerID ≠ [] then filterByPeer r criteria
  else filterByApp r criteria

/-- `QueryManager.query`. -/
def query (store : Kv) (criteria : Criteria) : Except Err (List KeyValue) :=
  match criteria.validate with
  | .error e => .error e
  | .ok _ =>
    match collect (getNext store)
        (getStateByPartialCompositeKey store indexMspID [criteria.mspID]) with
    | .error e => .error e
    | .ok configs => .ok (filterResults configs criteria)

/-- `QueryManager.Query`, which checks the criteria. -/
def queryConfig (store : Kv) (criteria : Criteria) : Except Err (List KeyValue) :=
  if criteria.mspID = [] then .error (.plain "MspID is required") else query store criteria

/-- `QueryManager.Get`. -/
def get (store : Kv) (key : Key) : Option Value := getConfig store key

/-! ## Updates, `updatemgr.go` -/

def indexValue : Bytes := [123, 125]

/-- `addIndex`. -/
def addIndex (key : Key) : Batch := [.put (indexKey key) indexValue]

/-- `deleteIndex`. -/
def deleteIndex (key : Key) : Batch := [.delete (indexKey key)]

/-- The writes of `save`, for the pairs of the map in the order in which they are met. -/
def save (kvs : List (Key × Value)) : Batch :=
  kvs.flatMap fun kv => .put (marshalKey kv.1) (marshalValue kv.2) :: addIndex kv.1

/-- `UpdateManager.validate`. -/
def validateMap (registry : Registry) (kvs : List (Key × Value)) : Except Err Unit :=
  forEach (fun _ kv => registry.validate kv.1 kv.2) () kvs

/-- The orders in which `Save` meets the pairs of the map when it validates and saves them. -/
structure SaveOrders where
  validating : RangeOrder (Key × Value)
  saving : RangeOrder (Key × Value)

/-- `UpdateManager.Save`. -/
def saveConfig (registry : Registry) (txID : GoString) (cfg : Config) (orders : SaveOrders) :
    Except Err Batch :=
  match newKeyValueMap cfg txID with
  | .error e => .error e
  | .ok configMap =>
    match validateMap registry (orders.validating.order configMap.toList) with
    | .error e => .error (.wrap "validation error" e)
    | .ok _ => .ok (save (orders.saving.order configMap.toList))

/-- `UpdateManager.Delete`. -/
def deleteConfig (store : Kv) (criteria : Criteria) : Except Err Batch :=
  match query store criteria with
  | .error e => .error e
  | .ok configs =>
    .ok (configs.flatMap fun kv => .delete (marshalKey kv.key) :: deleteIndex kv.key)

/-- The calls that change the store. -/
inductive Op where
  | save (txID : GoString) (cfg : Config) (orders : SaveOrders)
  | delete (criteria : Criteria)

def Op.writes (registry : Registry) (store : Kv) : Op → Except Err Batch
  | .save txID cfg orders => saveConfig registry txID cfg orders
  | .delete criteria => deleteConfig store criteria

def Op.apply (registry : Registry) (store : Kv) (op : Op) : Kv :=
  match op.writes registry store with
  | .error _ => store
  | .ok writes => writes.apply store

end FabricPeerExt.LedgerConfig
