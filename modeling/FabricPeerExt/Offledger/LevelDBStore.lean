/-
FabricPeerExt.Offledger.LevelDBStore — the LevelDB store of off-ledger data,
`pkg/collections/offledger/storeprovider/store/leveldbstore/dbstore.go`. User keys and index
entries share the key space.
-/
import FabricPeerExt.Lib.ExpiryIndex
import FabricPeerExt.Lib.Run
import FabricPeerExt.PvtData.Types

namespace FabricPeerExt.Offledger

open Lib
open PvtData (GoString Err liftErr wrapErr)

/-- `api.Value`. The encoding of the store does not tell a nil value from an empty one. -/
structure Value where
  value : Bytes
  txID : GoString
  expiryTime : Time
  revision : GoString
  deriving DecidableEq

structure KeyValue where
  key : GoString
  value : Option Value

namespace LevelDBStore

/-- `encodeKey`. -/
def encodeKey (key : GoString) (expiryTime : Time) : Bytes :=
  if expiryTime.isZero then key else formatInt expiryTime.unixNano ++ 33 :: key

section
variable (gob : Marshaler Value)

/-- `store.addToBatch`. The error prints the value that cannot be encoded (`kv.Value`), not the
key it speaks of; the printed value is left out. -/
def addToBatch (db : Kv) (batch : Batch) (kv : KeyValue) : Kv × Except Err Batch :=
  match kv.value with
  | none => (db, .ok (batch ++ [.delete (encodeKey kv.key .zero)]))
  | some v => match wrapErr "failed to encode value for key" (liftErr (gob.marshal v)) with
    | .error e => (db, .error e)
    | .ok encodedVal =>
      let batch' := batch ++ [.put (encodeKey kv.key .zero) encodedVal]
      if v.expiryTime.isZero then (db, .ok batch')
      else (db.insert (encodeKey kv.key v.expiryTime) [], .ok batch')

def fillBatch : Kv → Batch → List KeyValue → Kv × Except Err Batch
  | db, batch, [] => (db, .ok batch)
  | db, batch, kv :: kvs => match addToBatch gob db batch kv with
    | (db', .error e) => (db', .error e)
    | (db', .ok batch') => fillBatch db' batch' kvs

/-- `store.Put`. -/
def put (db : Kv) (keyVal : List KeyValue) : Kv × Except Err Unit :=
  match fillBatch gob db [] keyVal with
  | (db', .error e) => (db', .error e)
  | (db', .ok batch) => (batch.apply db', .ok ())

/-- `store.Get`. -/
def get (db : Kv) (key : GoString) : Except Err (Option Value) :=
  match db.lookup (encodeKey key .zero) with
  | none => .ok none
  | some value =>
    wrapErr "failed to decode value" (liftErr ((gob.unmarshal value).map some))

/-- `store.GetMultiple`. -/
def getMultiple (db : Kv) (keys : List GoString) : Except Err (List (Option Value)) :=
  collect (get gob db) keys

/-- `DeleteExpiredKeys` at a time of the clock: `key[strings.Index(key, "!")+1:]` is
`afterSep key`. -/
def deleteExpiredKeys (db : Kv) (now : Time) : Kv := purge db now

end

end LevelDBStore

end FabricPeerExt.Offledger
