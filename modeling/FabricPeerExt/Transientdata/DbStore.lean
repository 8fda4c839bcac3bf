/-
FabricPeerExt.Transientdata.DbStore — the LevelDB store of transient data, `dbstore/dbstore.go` of
`pkg/collections/transientdata/storeprovider/store`, with the keys and values of `api/api.go`.
-/
import FabricPeerExt.Lib.ExpiryIndex
import FabricPeerExt.PvtData.Types

namespace FabricPeerExt.Transientdata

open Lib
open PvtData (GoString Err liftErr wrapErr)

/-- `Key`. -/
structure Key where
  namespaceName : GoString
  collection : GoString
  key : GoString
  deriving DecidableEq

/-- `api.Value`. The encoding of the store does not tell a nil value from an empty one. -/
structure Value where
  value : Bytes
  txID : GoString
  expiryTime : Time
  deriving DecidableEq

namespace DbStore

/-- `encodeCacheKey`. -/
def encodeCacheKey (key : Key) (expiryTime : Time) : Bytes :=
  (if expiryTime.isZero then [] else formatInt expiryTime.unixNano ++ [33]) ++
    (key.namespaceName ++ 33 :: (key.collection ++ 33 :: key.key))

section
variable (gob : Marshaler Value)

/-- `DBStore.AddKey`. -/
def addKey (db : Kv) (key : Key) (value : Value) : Kv × Except Err Unit :=
  match wrapErr "failed to encode transientdata value" (liftErr (gob.marshal value)) with
  | .error e => (db, .error e)
  | .ok encodeVal =>
    let db' := db.insert (encodeCacheKey key .zero) encodeVal
    if value.expiryTime.isZero then (db', .ok ())
    else (db'.insert (encodeCacheKey key value.expiryTime) [], .ok ())

/-- `DBStore.GetKey`. -/
def getKey (db : Kv) (key : Key) : Except Err (Option Value) :=
  match db.lookup (encodeCacheKey key .zero) with
  | none => .ok none
  | some value =>
    wrapErr "failed to decode transientdata value" (liftErr ((gob.unmarshal value).map some))

/-- `DeleteExpiredKeys` at a time of the clock: `key[strings.Index(key, "!")+1:]` is
`afterSep key`. -/
def deleteExpiredKeys (db : Kv) (now : Time) : Kv := purge db now

end

end DbStore

end FabricPeerExt.Transientdata
