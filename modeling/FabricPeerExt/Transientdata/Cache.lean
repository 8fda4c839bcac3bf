/-
FabricPeerExt.Transientdata.Cache — the cache of transient data,
`pkg/collections/transientdata/storeprovider/store/cache/cache.go`.

Which entry has to go is the choice of `gcache`, so an eviction is a step of its own. Of `gcache`
as much is used as in `Offledger/Cache.lean`, and `EvictedFunc`. The readings of the clock are
arguments.
-/
import FabricPeerExt.Transientdata.DbStore

namespace FabricPeerExt.Transientdata

open Lib
open PvtData (GoString Err)

/-- `transientDB`. -/
structure TransientDB (δ : Type) where
  addKey : δ → Key → Value → δ × Except Err Unit
  getKey : δ → Key → Except Err (Option Value)
  deleteExpiredKeys : δ → Time → δ

def DbStore.asTransientDB (gob : Marshaler Value) : TransientDB Kv where
  addKey := addKey gob
  getKey := getKey gob
  deleteExpiredKeys := deleteExpiredKeys

/-- An entry in memory. -/
structure Item where
  value : Value
  expiration : Option Time

def Item.isExpired (item : Item) (now : Time) : Bool :=
  item.expiration.any fun t => t.nanos < now.nanos

/-- `Cache`: the memory and the database. -/
structure Cache (δ : Type) where
  alwaysPersist : Bool
  items : GoMap Key Item
  dbstore : δ

/-- `Cache.checkExpiryTime`. -/
def checkExpiryTime (expiryTime now : Time) : Bool × Int :=
  if expiryTime.isZero then (false, 0)
  else (expiryTime.sub now ≤ 0, expiryTime.sub now)

namespace Cache

section
variable {δ : Type} (D : TransientDB δ) (c : Cache δ)

/-- `Cache.persist`. -/
def persist (key : Key) (value : Value) (now : Time) : Cache δ :=
  if (checkExpiryTime value.expiryTime now).1 then c
  else { c with dbstore := (D.addKey c.dbstore key value).1 }

/-- The `EvictedFunc` of the cache: `evict`, and none if all values are persisted. -/
def evicted (key : Key) (value : Value) (now : Time) : Cache δ :=
  if c.alwaysPersist then c else c.persist D key value now

def evict (key : Key) (now : Time) : Cache δ :=
  match c.items.lookup key with
  | none => c
  | some item => evicted D { c with items := c.items.erase key } key item.value now

def set (key : Key) (value : Value) : Cache δ :=
  { c with items := c.items.insert key ⟨value, (c.items.lookup key).bind Item.expiration⟩ }

def setWithExpire (key : Key) (value : Value) (expiration : Int) (now : Time) : Cache δ :=
  { c with items := c.items.insert key ⟨value, some (now.add expiration)⟩ }

/-- `Cache.Put`. -/
def put (key : Key) (value : Bytes) (txID : GoString) (now : Time) : Cache δ :=
  let v : Value := ⟨value, txID, .zero⟩
  let c := c.set key v
  if c.alwaysPersist then c.persist D key v now else c

/-- `PutWithExpire`: `now` gives the expiry time, `later` is the clock after that. -/
def putWithExpire (key : Key) (value : Bytes) (txID : GoString) (expiry : Int)
    (now later : Time) : Cache δ :=
  let v : Value := ⟨value, txID, now.add expiry⟩
  let c := c.setWithExpire key v expiry later
  if c.alwaysPersist then c.persist D key v later else c

/-- `Cache.loadFromDB`. -/
def loadFromDB (key : Key) (now : Time) : Option (Value × Int) :=
  match D.getKey c.dbstore key with
  | .error _ => none
  | .ok none => none
  | .ok (some value) =>
    let (isExpired, diff) := checkExpiryTime value.expiryTime now
    if isExpired then none else some (value, diff)

def load (key : Key) (now later : Time) : Cache δ × Option Value :=
  match c.loadFromDB D key now with
  | none => (c, none)
  | some (value, diff) => (c.setWithExpire key value diff later, some value)

/-- `Get`: `gcache` looks at the clock first, then an expired entry is evicted and the value
loaded, and its expiration set last. -/
def get (key : Key) (now loaded later : Time) : Cache δ × Option Value :=
  match c.items.lookup key with
  | none => c.load D key loaded later
  | some item =>
    if item.isExpired now then (c.evict D key loaded).load D key loaded later
    else (c, some item.value)

/-- `Cache.periodicPurge`, one round. -/
def periodicPurge (now : Time) : Cache δ :=
  { c with dbstore := D.deleteExpiredKeys c.dbstore now }

end

end Cache

end FabricPeerExt.Transientdata
