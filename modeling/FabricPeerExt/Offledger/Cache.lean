/-
FabricPeerExt.Offledger.Cache — the cache of off-ledger data,
`pkg/collections/offledger/storeprovider/store/cache/cache.go`.

Of `gcache` this much is used: `Set` keeps the expiration of an entry that is there,
`SetWithExpire` and a load give it `now` plus a duration, and `Get` removes an entry whose
expiration is before `now`. The readings of the clock are arguments.
-/
import FabricPeerExt.Offledger.Api

namespace FabricPeerExt.Offledger

open Lib
open PvtData (GoString Err wrapErr)
open Offledger.Api

/-- `DB`, without `Query` and `Close`. -/
structure DB (δ : Type) where
  put : δ → List Api.KeyValue → δ × Except Err Unit
  get : δ → GoString → Except Err (Option Api.Value)
  getMultiple : δ → List GoString → Except Err (List (Option Api.Value))
  deleteExpiredKeys : δ → Time → δ × Except Err Unit

/-- `cacheKey`. -/
structure CacheKey where
  ns : GoString
  coll : GoString
  key : GoString
  deriving DecidableEq

/-- An entry of the cache; one without a value stands for a missing key. -/
structure Item where
  value : Option Api.Value
  expiration : Option Time
  deriving DecidableEq

def Item.isExpired (item : Item) (now : Time) : Bool :=
  item.expiration.any fun t => t.nanos < now.nanos

/-- The readings of the clock in one call. -/
structure Readings where
  first : Time
  second : Time
  third : Time

/-- `Cache`. Evictions of the library remove any entry. -/
abbrev Cache := GoMap CacheKey Item

namespace Cache

variable (c : Cache)

def set (key : CacheKey) (value : Option Api.Value) : Cache :=
  c.insert key ⟨value, (c.lookup key).bind Item.expiration⟩

def setWithExpire (key : CacheKey) (value : Option Api.Value) (expiration : Int) (now : Time) :
    Cache :=
  c.insert key ⟨value, some (now.add expiration)⟩

/-- `Cache.Put`. -/
def put (key : CacheKey) (value : Api.Value) (r : Readings) : Cache :=
  if value.expiryTime.isZero then c.set key (some value)
  else if value.expiryTime.nanos < r.first.nanos then c
  else c.setWithExpire key (some value) (value.expiryTime.sub r.second) r.third

/-- `Cache.Delete`. -/
def delete (key : CacheKey) : Cache := c.erase key

section
variable {δ : Type} (D : DB δ) (db : Except Err δ)

/-- `Cache.load`. -/
def load (key : GoString) (now : Time) : Except Err (Option Api.Value × Option Int) :=
  match wrapErr "error getting database" db with
  | .error e => .error e
  | .ok db =>
    match wrapErr "error loading value" (D.get db key) with
    | .error e => .error e
    | .ok none => .ok (none, none)
    | .ok (some v) =>
      if v.expiryTime.isZero then .ok (some v, none)
      else
        let remainingTime := v.expiryTime.sub now
        if remainingTime < 0 then .ok (none, none) else .ok (some v, some remainingTime)

def store (key : CacheKey) (later : Time) : Option Api.Value × Option Int → Cache
  | (v, none) => c.set key v
  | (v, some remainingTime) => c.setWithExpire key v remainingTime later

def getWithLoader (key : CacheKey) (r : Readings) : Cache × Except Err (Option Api.Value) :=
  match load D db key.key r.second with
  | .error e => (c, .error e)
  | .ok loaded => (c.store key r.third loaded, .ok loaded.1)

/-- `Cache.Get`. -/
def get (key : CacheKey) (r : Readings) : Cache × Except Err (Option Api.Value) :=
  match c.lookup key with
  | none => c.getWithLoader D db key r
  | some item =>
    if item.isExpired r.first then getWithLoader (c.erase key) D db key r
    else (c, .ok item.value)

/-- `Cache.GetMultiple`. -/
def getMultiple (c : Cache) (ns coll : GoString) :
    List (GoString × Readings) → Cache × Except Err (List (Option Api.Value))
  | [] => (c, .ok [])
  | (key, r) :: keys =>
    match c.get D db ⟨ns, coll, key⟩ r with
    | (c, .error e) => (c, .error e)
    | (c, .ok value) =>
      match getMultiple c ns coll keys with
      | (c, .error e) => (c, .error e)
      | (c, .ok values) => (c, .ok (value :: values))

end

end Cache

end FabricPeerExt.Offledger
