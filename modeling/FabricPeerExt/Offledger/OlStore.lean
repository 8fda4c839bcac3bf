/-
FabricPeerExt.Offledger.OlStore — the off-ledger store of a channel,
`pkg/collections/offledger/storeprovider/olstore.go`. The databases, the configurations and what
the peer knows about itself are parameters (`Env`).
-/
import FabricPeerExt.Collections.RwSets
import FabricPeerExt.Lib.Utf8
import FabricPeerExt.Offledger.Cache

namespace FabricPeerExt.Offledger

open Lib
open PvtData (GoString Err liftErr wrapErr)
open Collections (CollectionType KVWrite CollPvtRwSet)
open Offledger.Api

/-! ## What the store is given -/

structure Key where
  endorsedAtTxID : GoString
  ns : GoString
  collection : GoString
  key : GoString
  deriving DecidableEq

structure ExpiringValue where
  value : Option Bytes
  expiry : Time
  deriving DecidableEq

/-- A `decorator` of values, such as that for DCAS. -/
structure Decorator where
  beforeSave : Key → ExpiringValue → Except Err (Key × ExpiringValue)
  beforeLoad : Key → Except Err Key

/-- `collTypeConfig`. -/
structure CollTypeConfig where
  decorator : Option Decorator
  enableCache : Bool

/-- `pb.StaticCollectionConfig`. What the code reads of it is what libraries make of it:
`timeToLive` is the result of `time.ParseDuration`, if it is not empty, and `memberOrgs` that
of `Setup`. -/
structure CollConfig where
  name : GoString
  type : CollectionType
  timeToLive : Option (Except String Int)
  memberOrgs : Except String (List GoString)
  maximumPeerCount : Int

/-- The packages by namespace; `none` is a configuration that is not a static one. -/
abbrev CollConfigPkgs := GoMap GoString (List (Option CollConfig))

/-- `providers`, with the configuration of the store and the peer: `getDB` is an error of
`GetDB`, `configType` the type that the retriever of configurations finds. -/
structure Env (δ : Type) where
  db : DB δ
  getDB : GoString → GoString → Option Err
  cacheSize : Int
  collConfigs : CollectionType → Option CollTypeConfig
  configType : GoString → GoString → Except Err CollectionType
  identifier : Except Err GoString
  isCommitter : Bool

/-- `store`: the cache, and the databases by collection. -/
structure Store (δ : Type) where
  cache : Cache
  dbs : GoString × GoString → δ

namespace Env

variable {δ : Type} (env : Env δ)

/-! ## Configuration -/

/-- `store.collTypeSupported`. -/
def collTypeSupported (collType : CollectionType) : Bool := (env.collConfigs collType).isSome

/-- `store.getCollectionConfig`. -/
def getCollectionConfig (collConfigPkgs : CollConfigPkgs) (ns collName : GoString) :
    Option CollConfig :=
  (collConfigPkgs.lookup ns).bind fun configs =>
    (configs.filterMap id).find? fun config =>
      config.name = collName && env.collTypeSupported config.type

/-- `store.beforeSave`. -/
def beforeSave (config : CollConfig) (key : Key) (value : ExpiringValue) :
    Except Err (Key × ExpiringValue) :=
  match (env.collConfigs config.type).bind CollTypeConfig.decorator with
  | none => .ok (key, value)
  | some decorator => decorator.beforeSave key value

/-- `store.beforeLoad`. -/
def beforeLoad (config : CollConfig) (key : Key) : Except Err Key :=
  match (env.collConfigs config.type).bind CollTypeConfig.decorator with
  | none => .ok key
  | some decorator => decorator.beforeLoad key

/-- `store.cacheEnabledForType`. -/
def cacheEnabledForType (collType : CollectionType) : Bool :=
  if env.cacheSize ≤ 0 then false
  else (env.collConfigs collType).any CollTypeConfig.enableCache

/-- `store.cacheEnabled`. -/
def cacheEnabled (ns coll : GoString) : Except Err Bool :=
  match env.configType ns coll with
  | .error e => .error e
  | .ok collType => .ok (env.cacheEnabledForType collType)

/-- `ImplicitOrg`: "IMPLICIT-ORG". -/
def implicitOrg : GoString := [73, 77, 80, 76, 73, 67, 73, 84, 45, 79, 82, 71]

/-- `isAuthorized`, with `loadPolicy` and the `MemberOrgs` of the implicit policy. -/
def isAuthorized (config : CollConfig) : Except Err Bool :=
  match wrapErr s!"error setting up collection policy {asString config.name}"
      (liftErr config.memberOrgs) with
  | .error e => .error e
  | .ok memberOrgs =>
    match wrapErr "unable to get local MSP ID" env.identifier with
    | .error e => .error e
    | .ok localMSP =>
      .ok ((memberOrgs.map fun org => if org = implicitOrg then localMSP else org).contains
        localMSP)

/-- `store.getExpirationTime`. `timeToLive` is parsed already. -/
def getExpirationTime (config : CollConfig) (now : Time) : Except Err Time :=
  match config.timeToLive with
  | none => .ok .zero
  | some ttl =>
    match wrapErr s!"error parsing time-to-live for collection [{asString config.name}]"
        (liftErr ttl) with
    | .error e => .error e
    | .ok ttl => .ok (now.add ttl)

/-! ## Writing -/

def writtenValue (w : KVWrite) : Option Bytes := if w.value = [] then none else some w.value

/-- `store.newKeyValue`. -/
def newKeyValue (txID ns : GoString) (config : CollConfig) (expiryTime : Time) (w : KVWrite) :
    Except Err Api.KeyValue :=
  let key : Key := ⟨txID, ns, config.name, w.key⟩
  if w.isDelete then
    match env.beforeLoad config key with
    | .error e => .error e
    | .ok dKey => .ok ⟨dKey.key, none⟩
  else
    match env.beforeSave config key ⟨writtenValue w, expiryTime⟩ with
    | .error e => .error e
    | .ok (dKey, value) => .ok (Api.newKeyValue dKey.key value.value txID value.expiry)

/-- `store.createBatch`. -/
def createBatch (txID ns : GoString) (config : CollConfig) (collRWSet : CollPvtRwSet)
    (expiryTime : Time) : Except Err (List Api.KeyValue) :=
  collect (env.newKeyValue txID ns config expiryTime) collRWSet.kvRwSet.writes

def updateEntry (ns coll : GoString) (c : Cache) (kv : Api.KeyValue × Readings) : Cache :=
  match kv.1.value with
  | some v => c.put ⟨ns, coll, kv.1.key⟩ v kv.2
  | none => c.delete ⟨ns, coll, kv.1.key⟩

/-- `store.updateCache`. -/
def updateCache (ns coll : GoString) (c : Cache) (batch : List (Api.KeyValue × Readings)) : Cache :=
  batch.foldl (updateEntry ns coll) c

/-- `store.persist`. -/
def persist (s : Store δ) (ns coll : GoString) (batch : List Api.KeyValue) :
    Store δ × Except Err Unit :=
  match env.getDB coll ns with
  | some e => (s, .error e)
  | none =>
    let (db, result) := env.db.put (s.dbs (ns, coll)) batch
    ({ s with dbs := Function.update s.dbs (ns, coll) db },
      wrapErr s!"error persisting to [{asString ns}:{asString coll}]" result)

def batchOf (txID ns : GoString) (collConfigPkgs : CollConfigPkgs) (collRWSet : CollPvtRwSet)
    (now : Time) : Except Err (Option (CollConfig × List Api.KeyValue)) :=
  match env.getCollectionConfig collConfigPkgs ns collRWSet.collectionName with
  | none => .ok none
  | some collConfig =>
    match env.isAuthorized collConfig with
    | .error e => .error e
    | .ok false => .ok none
    | .ok true =>
      match getExpirationTime collConfig now with
      | .error e => .error e
      | .ok expiryTime =>
        match env.createBatch txID ns collConfig collRWSet expiryTime with
        | .error e => .error e
        | .ok batch => .ok (some (collConfig, batch))

/-- `persistColl`: `now` is the clock for the expiry, and `clock` that of the calls of the
cache, one after the other. -/
def persistColl (s : Store δ) (txID ns : GoString) (collConfigPkgs : CollConfigPkgs)
    (collRWSet : CollPvtRwSet) (now : Time) (clock : Nat → Readings) :
    Store δ × Except Err Unit :=
  match env.batchOf txID ns collConfigPkgs collRWSet now with
  | .error e => (s, .error e)
  | .ok none => (s, .ok ())
  | .ok (some (collConfig, batch)) =>
    let s' :=
      if env.cacheEnabledForType collConfig.type then
        { s with cache := updateCache ns collRWSet.collectionName s.cache
                  (batch.zipIdx.map fun p => (p.1, clock p.2)) }
      else s
    if !env.isCommitter && collConfig.maximumPeerCount > 0 then (s', .ok ())
    else env.persist s' ns collRWSet.collectionName batch

/-- `store.PutData`. -/
def putData (s : Store δ) (config : CollConfig) (key : Key) (value : ExpiringValue) (now : Time)
    (clock : Readings) : Store δ × Except Err Unit :=
  match value.value with
  | none => (s, .error (.plain "attempt to put nil value for key"))
  | some _ =>
    if config.name ≠ key.collection then
      (s, .error (.plain "invalid collection config for key"))
    else
      match env.beforeSave config key value with
      | .error e => (s, .error e)
      | .ok (key, value) =>
        if !value.expiry.isZero && value.expiry.nanos < now.nanos then (s, .ok ())
        else
          match env.getDB key.collection key.ns with
          | some e => (s, .error e)
          | none =>
            match env.db.put (s.dbs (key.ns, key.collection))
                [Api.newKeyValue key.key value.value key.endorsedAtTxID value.expiry] with
            | (db, .error e) =>
              ({ s with dbs := Function.update s.dbs (key.ns, key.collection) db }, .error e)
            | (db, .ok ()) =>
              let cache :=
                if env.cacheEnabledForType config.type then
                  s.cache.put ⟨key.ns, key.collection, key.key⟩
                    ⟨value.value, key.endorsedAtTxID, value.expiry, []⟩ clock
                else s.cache
              (⟨cache, Function.update s.dbs (key.ns, key.collection) db⟩, .ok ())

/-! ## Reading -/

def database (s : Store δ) (ns coll : GoString) : Except Err δ :=
  match env.getDB coll ns with
  | some e => .error e
  | none => .ok (s.dbs (ns, coll))

/-- What the caller gets of a value: nothing of its own transaction. -/
def expiringValue (txID : GoString) (value : Option Api.Value) : Option ExpiringValue :=
  match value with
  | none => none
  | some v => if v.txID = txID then none else some ⟨v.value, v.expiryTime⟩

/-- `store.GetData`. -/
def getData (s : Store δ) (txID ns coll key : GoString) (r : Readings) :
    Store δ × Except Err (Option ExpiringValue) :=
  match env.cacheEnabled ns coll with
  | .error e => (s, .error e)
  | .ok false =>
    match wrapErr "error getting database" (env.database s ns coll) with
    | .error e => (s, .error e)
    | .ok db =>
      match wrapErr "error loading value" (env.db.get db key) with
      | .error e => (s, .error e)
      | .ok value => (s, .ok (expiringValue txID value))
  | .ok true =>
    let (c, result) := s.cache.get env.db (env.database s ns coll) ⟨ns, coll, key⟩ r
    ({ s with cache := c }, result.map (expiringValue txID))

def expiringValues (txID : GoString) (numKeys : Nat) (values : List (Option Api.Value)) :
    Except Err (List (Option ExpiringValue)) :=
  if values.length ≠ numKeys then
    .error (.plain "not all of the values were returned for the set of keys")
  else .ok (values.map (expiringValue txID))

/-- `store.GetDataMultipleKeys`. -/
def getDataMultipleKeys (s : Store δ) (txID ns coll : GoString)
    (keys : List (GoString × Readings)) :
    Store δ × Except Err (List (Option ExpiringValue)) :=
  match env.cacheEnabled ns coll with
  | .error e => (s, .error e)
  | .ok false =>
    match wrapErr "error getting database" (env.database s ns coll) with
    | .error e => (s, .error e)
    | .ok db =>
      match wrapErr "error loading values" (env.db.getMultiple db (keys.map Prod.fst)) with
      | .error e => (s, .error e)
      | .ok values => (s, expiringValues txID keys.length values)
  | .ok true =>
    match s.cache.getMultiple env.db (env.database s ns coll) ns coll keys with
    | (c, .error e) => ({ s with cache := c }, .error e)
    | (c, .ok values) => ({ s with cache := c }, expiringValues txID keys.length values)

end Env

end FabricPeerExt.Offledger
