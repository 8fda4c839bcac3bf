/-
FabricPeerExt.Transientdata.TdStore — the transient data store of a peer,
`pkg/collections/transientdata/storeprovider/tdstore.go`. The cache is a parameter
(`TransientCache`), `puts` records the calls of `PutWithExpire`.
-/
import FabricPeerExt.Collections.RwSets
import FabricPeerExt.Transientdata.Cache
import FabricPeerExt.Transientdata.Disseminator

namespace FabricPeerExt.Transientdata

open Lib
open PvtData (GoString Err NsPvtReadWriteSet liftErr wrapErr)
open Collections
open Validation (Discovery)

/-! ## The cache -/

/-- What `Get` and `PutWithExpire` do to a cache. -/
structure TransientCache (σ : Type) where
  get : σ → Key → σ × Option Value
  putWithExpire : σ → Key → Bytes → GoString → Int → σ

/-- What happens at a call of the cache: the entries that are evicted, and the readings of the
clock. -/
structure Moment where
  evicted : List Key
  now : Time
  loaded : Time
  later : Time

/-- A cache and the moments of the calls to come; the last one stays. -/
structure Clocked (δ : Type) where
  cache : Cache δ
  moment : Moment
  upcoming : List Moment

namespace Clocked

variable {δ : Type} (D : TransientDB δ)

def current (c : Clocked δ) : Cache δ :=
  c.moment.evicted.foldl (fun cache key => cache.evict D key c.moment.now) c.cache

def next (c : Clocked δ) (cache : Cache δ) : Clocked δ :=
  match c.upcoming with
  | [] => { c with cache }
  | m :: ms => ⟨cache, m, ms⟩

end Clocked

def Cache.clocked {δ : Type} (D : TransientDB δ) : TransientCache (Clocked δ) where
  get c key :=
    let (cache, value) := (c.current D).get D key c.moment.now c.moment.loaded c.moment.later
    (c.next cache, value)
  putWithExpire c key value txID expiry :=
    c.next ((c.current D).putWithExpire D key value txID expiry c.moment.now c.moment.later)

/-! ## The store -/

/-- `store`, with the cache it uses. -/
structure Store (σ : Type) where
  discovery : Discovery
  cache : σ
  puts : List (Key × Bytes)

namespace Store

variable {σ : Type} (C : TransientCache σ)

/-- `store.persistKVWrite`. -/
def persistKVWrite (s : Store σ) (txID ns coll : GoString) (w : KVWrite) (ttl : Int) : Store σ :=
  if w.isDelete then s else
    let key : Key := ⟨ns, coll, w.key⟩
    match C.get s.cache key with
    | (cache, some _) => { s with cache }
    | (cache, none) =>
      { s with
        cache := C.putWithExpire cache key w.value txID ttl
        puts := s.puts ++ [(key, w.value)] }

def persistWrites (resolver : Disseminator) (fuel : Nat) (txID ns coll : GoString) (ttl : Int) :
    List KVWrite → Store σ → Option (Store σ × Except Err Unit)
  | [], s => some (s, .ok ())
  | wSet :: wSets, s =>
    match resolver.resolveEndorsers fuel wSet.key with
    | none => none
    | some (.error e) => some (s, .error e)
    | some (.ok endorsers) =>
      if endorsers.containsLocal then
        persistWrites resolver fuel txID ns coll ttl wSets
          (s.persistKVWrite C txID ns coll wSet ttl)
      else persistWrites resolver fuel txID ns coll ttl wSets s

/-- `store.persistColl`, with `loadPolicy`. -/
def persistColl (fuel : Nat) (txID ns : GoString) (configs : CollectionConfigs AccessPolicy)
    (collRWSet : CollPvtRwSet) (s : Store σ) : Option (Store σ × Except Err Unit) :=
  match getCollectionConfig [.colTransient] configs ns collRWSet.collectionName with
  | none => some (s, .ok ())
  | some config =>
    match wrapErr "error parsing time-to-live for collection" (liftErr config.timeToLive) with
    | .error e => some (s, .error e)
    | .ok ttl =>
      match wrapErr "error setting up collection policy" (liftErr config.policy) with
      | .error e => some (s, .error e)
      | .ok policy =>
        persistWrites C ⟨s.discovery, policy⟩ fuel txID ns collRWSet.collectionName ttl
          collRWSet.kvRwSet.writes s

def persistColls (fuel : Nat) (txID : GoString) (configs : CollectionConfigs AccessPolicy) :
    List (GoString × CollPvtRwSet) → Store σ → Option (Store σ × Except Err Unit)
  | [], s => some (s, .ok ())
  | (ns, collRWSet) :: rest, s =>
    match s.persistColl C fuel txID ns configs collRWSet with
    | none => none
    | some (s', .error e) => some (s', .error e)
    | some (s', .ok ()) => persistColls fuel txID configs rest s'

/-- `store.Persist`. -/
def persist (proto : Marshaler KVRWSet) (fuel : Nat) (txID : GoString)
    (nsPvtRwset : List NsPvtReadWriteSet) (configs : CollectionConfigs AccessPolicy)
    (s : Store σ) : Option (Store σ × Except Err Unit) :=
  match wrapErr "error getting pvt RW set from bytes"
      (txPvtRwSetFromProtoMsg proto nsPvtRwset) with
  | .error e => some (s, .error e)
  | .ok nss =>
    s.persistColls C fuel txID configs
      (nss.flatMap fun ns => ns.collPvtRwSets.map fun coll => (ns.nameSpace, coll))

end Store

end FabricPeerExt.Transientdata
