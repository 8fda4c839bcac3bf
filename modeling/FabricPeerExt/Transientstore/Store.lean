/-
FabricPeerExt.Transientstore.Store — the in-memory transient store, `pkg/transientstore`.

Reading a missing key of a cache stores an empty element (`Lib/LoadingCache.lean`); the elements
are shared pointers. The UUID of a write set is an argument of `persist`. Locks and log lines are
left out.
-/
import FabricPeerExt.Lib.Base64
import FabricPeerExt.Lib.LoadingCache
import FabricPeerExt.PvtData.Assembler

namespace FabricPeerExt.Transientstore

open Lib
open PvtData (GoString Err TxPvtReadWriteSet PvtNsCollFilter v11TrimPvtWSet)

/-! ## Messages -/

/-- `peer.CollectionConfig`: a static configuration with its name and the other fields, or
another payload. -/
inductive CollectionConfig where
  | static (name : GoString) (fields : Bytes)
  | other
  deriving DecidableEq, Repr

/-- `transientstore.TxPvtReadWriteSetWithConfigInfo`. A configuration package is the list of
its configurations. -/
structure TxPvtReadWriteSetWithConfigInfo where
  pvtRwset : Option TxPvtReadWriteSet
  collectionConfigs : GoMap GoString (List CollectionConfig)

/-- What the store calls and does not define. -/
structure Externals where
  orderPreservingVarUint64 : OrderPreserving
  txPvtRwset : Marshaler TxPvtReadWriteSet
  configInfo : Marshaler TxPvtReadWriteSetWithConfigInfo

/-! ## Composite keys, `common/common_store_helper.go` -/

/-- `prwsetPrefix`, the byte of "P". -/
def prwsetPrefix : UInt8 := 80

/-- `purgeIndexByHeightPrefix`, the byte of "H". -/
def purgeIndexByHeightPrefix : UInt8 := 72

def compositeKeySep : UInt8 := 0

def nilByte : UInt8 := 0

section
variable (x : Externals)

/-- `createCompositeKeyWithoutPrefixForTxid`. -/
def createCompositeKeyWithoutPrefixForTxid (txid uuid : GoString) (blockHeight : UInt64) : Bytes :=
  txid ++ [compositeKeySep] ++ uuid ++ [compositeKeySep] ++
    x.orderPreservingVarUint64.encode blockHeight

/-- `CreateCompositeKeyForPvtRWSet`. -/
def createCompositeKeyForPvtRWSet (txid uuid : GoString) (blockHeight : UInt64) : Bytes :=
  [prwsetPrefix, compositeKeySep] ++ createCompositeKeyWithoutPrefixForTxid x txid uuid blockHeight

/-- `CreateCompositeKeyForPurgeIndexByHeight`. -/
def createCompositeKeyForPurgeIndexByHeight (blockHeight : UInt64) (txid uuid : GoString) : Bytes :=
  [purgeIndexByHeightPrefix, compositeKeySep] ++ x.orderPreservingVarUint64.encode blockHeight ++
    [compositeKeySep] ++ txid ++ [compositeKeySep] ++ uuid

def splitAtSep : Bytes → Option (Bytes × Bytes)
  | [] => none
  | b :: bs =>
    if b = compositeKeySep then some ([], bs)
    else (splitAtSep bs).map fun p => (b :: p.1, p.2)

/-- `splitCompositeKeyWithoutPrefixForTxid`. Without two separators the Go code slices out of
bounds. -/
def splitCompositeKeyWithoutPrefixForTxid (compositeKey : Bytes) : Except Err (GoString × UInt64) :=
  match splitAtSep compositeKey with
  | none => .error (.panic "slice bounds out of range")
  | some (_, rest) => match splitAtSep rest with
    | none => .error (.panic "slice bounds out of range")
    | some (uuid, height) => match x.orderPreservingVarUint64.decode height with
      | .error e => .error (.plain e)
      | .ok (blockHeight, _) => .ok (uuid, blockHeight)

/-- `SplitCompositeKeyOfPvtRWSet`. -/
def splitCompositeKeyOfPvtRWSet (compositeKey : Bytes) : Except Err (GoString × UInt64) :=
  match compositeKey with
  | _ :: _ :: rest => splitCompositeKeyWithoutPrefixForTxid x rest
  | _ => .error (.panic "slice bounds out of range")

/-- `SplitCompositeKeyOfPurgeIndexByHeight`. The byte after the height is skipped, and what
stands behind it is split at every separator. -/
def splitCompositeKeyOfPurgeIndexByHeight (compositeKey : Bytes) :
    Except Err (GoString × GoString × UInt64) :=
  match compositeKey with
  | _ :: _ :: rest => match x.orderPreservingVarUint64.decode rest with
    | .error e => .error (.plain e)
    | .ok (blockHeight, n) => match rest.drop n with
      | [] => .error (.panic "slice bounds out of range")
      | _ :: names => match names.splitOn compositeKeySep with
        | txid :: uuid :: _ => .ok (txid, uuid, blockHeight)
        | _ => .error (.panic "index out of range")
  | _ => .error (.panic "slice bounds out of range")

def heightOfKey (key : GoString) : Except Err UInt64 :=
  match hexDecode key with
  | .error e => .error (.plain e)
  | .ok hexKey => match splitCompositeKeyOfPvtRWSet x hexKey with
    | .error e => .error e
    | .ok (_, blkHeight) => .ok blkHeight

end

/-! ## Filters -/

/-- `TrimPvtWSet`. A nil filter returns the write set, which may be nil; any other one
dereferences it. -/
def trimPvtWSet (pvtWSet : Option TxPvtReadWriteSet) (filter : PvtNsCollFilter) :
    Except Err (Option TxPvtReadWriteSet) :=
  match filter, pvtWSet with
  | none, _ => .ok pvtWSet
  | some _, none => .error (.panic "invalid memory address or nil pointer dereference")
  | some _, some w => .ok (v11TrimPvtWSet w filter)

def trimConfigs (has : GoString → Bool) :
    List CollectionConfig → Except Err (List CollectionConfig)
  | [] => .ok []
  | .other :: _ => .error (.plain "unexpected collection type")
  | .static name fields :: rest => match trimConfigs has rest with
    | .error e => .error e
    | .ok rest' => .ok (if has name then .static name fields :: rest' else rest')

/-- `TrimPvtCollectionConfigs`. -/
def trimPvtCollectionConfigs (configs : GoMap GoString (List CollectionConfig))
    (filter : PvtNsCollFilter) : Except Err (GoMap GoString (List CollectionConfig)) :=
  match filter with
  | none => .ok configs
  | some has =>
    (collect (fun p => (trimConfigs (has p.1) p.2).map (p.1, ·)) configs.toList).map
      (GoMap.insertAll ∅)

def filterMessage (msg : TxPvtReadWriteSetWithConfigInfo) (filter : PvtNsCollFilter) :
    Except Err TxPvtReadWriteSetWithConfigInfo :=
  match trimPvtWSet msg.pvtRwset filter with
  | .error e => .error e
  | .ok w => match trimPvtCollectionConfigs msg.collectionConfigs filter with
    | .error e => .error e
    | .ok configs => .ok ⟨w, configs⟩

/-! ## The store -/

/-- `store`: the three caches. -/
structure Store where
  cache : GoMap GoString (GoMap GoString GoString)
  blockHeightCache : GoMap UInt64 (List GoString)
  txidCache : GoMap GoString (List UInt64)

/-- `newStore`. -/
def newStore : Store := ⟨∅, ∅, ∅⟩

namespace Store

section
variable (x : Externals)

/-- `store.setTxPvtWRSetToCache`, with the read before it. -/
def setTxPvtWRSetToCache (s : Store) (txid : GoString) (compositeKeyPvtRWSet : Bytes)
    (privSimulationResults : Bytes) : Store :=
  let txPvtRWSetMap := s.cache.valueAt ∅ txid
  let k := hexEncode compositeKeyPvtRWSet
  let v := base64Encode privSimulationResults
  { s with cache := (s.cache.load ∅ txid).insert txid (txPvtRWSetMap.insert k v) }

/-- `store.setTxidToBlockHeightCache`, with the read before it. -/
def setTxidToBlockHeightCache (s : Store) (txid : GoString) (blockHeight : UInt64) : Store :=
  let blockHeightTxids := s.blockHeightCache.valueAt [] blockHeight
  let loaded := s.blockHeightCache.load [] blockHeight
  if (SortedSlice.find blockHeightTxids txid).1 then { s with blockHeightCache := loaded }
  else { s with
    blockHeightCache := loaded.insert blockHeight (SortedSlice.add blockHeightTxids txid) }

/-- `store.updateTxidCache`. -/
def updateTxidCache (s : Store) (txid : GoString) (blockHeight : UInt64) : Store :=
  let uintVal := s.txidCache.valueAt [] txid
  let uintVal' :=
    if (SortedSlice.find uintVal blockHeight).1 then uintVal
    else SortedSlice.add uintVal blockHeight
  { s with txidCache := (s.txidCache.load [] txid).insert txid uintVal' }

/-- `store.Persist`. The UUID is an argument. -/
def persist (s : Store) (txid uuid : GoString) (blockHeight : UInt64)
    (msg : Option TxPvtReadWriteSetWithConfigInfo) : Store × Except Err Unit :=
  match msg with
  | none => (s, .error (.plain "proto: Marshal called with nil"))
  | some m => match x.configInfo.marshal m with
    | .error e => (s, .error (.plain e))
    | .ok bytes =>
      let key := createCompositeKeyForPvtRWSet x txid uuid blockHeight
      let s₁ := s.setTxPvtWRSetToCache txid key (nilByte :: bytes)
      let s₂ := s₁.setTxidToBlockHeightCache txid blockHeight
      (s₂.updateTxidCache txid blockHeight, .ok ())

/-! ### Scans -/

/-- `RwsetScanner`. -/
structure RwsetScanner where
  filter : PvtNsCollFilter
  results : List (GoString × GoString)
  next : Nat

structure EndorserPvtSimulationResults where
  receivedAtBlockHeight : UInt64
  pvtSimulationResultsWithConfig : TxPvtReadWriteSetWithConfigInfo

/-- `store.GetTxPvtRWSetByTxid`. -/
def getTxPvtRWSetByTxid (s : Store) (txid : GoString) (filter : PvtNsCollFilter) :
    Store × RwsetScanner :=
  ({ s with cache := s.cache.load ∅ txid }, ⟨filter, (s.cache.valueAt ∅ txid).toList, 0⟩)

def decodeResult (filter : PvtNsCollFilter) (kv : GoString × GoString) :
    Except Err EndorserPvtSimulationResults :=
  match heightOfKey x kv.1 with
  | .error e => .error e
  | .ok blockHeight => match base64Decode kv.2 with
    | .error e => .error (.wrap "error from DecodeString for transientDataField" (.plain e))
    | .ok [] => .error (.panic "index out of range")
    | .ok (b :: rest) =>
      if b = nilByte then
        match x.configInfo.unmarshal rest with
        | .error e => .error (.plain e)
        | .ok msg => match filterMessage msg filter with
          | .error e => .error e
          | .ok filtered => .ok ⟨blockHeight, filtered⟩
      else
        match x.txPvtRwset.unmarshal (b :: rest) with
        | .error e => .error (.plain e)
        | .ok w => match trimPvtWSet (some w) filter with
          | .error e => .error e
          | .ok filtered => .ok ⟨blockHeight, ⟨filtered, ∅⟩⟩

/-- `RwsetScanner.Next`, with `nextKV`. -/
def RwsetScanner.nextResult (scanner : RwsetScanner) :
    RwsetScanner × Option (Except Err EndorserPvtSimulationResults) :=
  match scanner.results[scanner.next]? with
  | none => (scanner, none)
  | some kv =>
    ({ scanner with next := scanner.next + 1 }, some (decodeResult x scanner.filter kv))

/-- What the calls of `Next` return until the scanner is exhausted, at most `fuel` of them. -/
def RwsetScanner.drain : Nat → RwsetScanner → List (Except Err EndorserPvtSimulationResults)
  | 0, _ => []
  | fuel + 1, scanner => match scanner.nextResult x with
    | (_, none) => []
    | (scanner', some r) => r :: drain fuel scanner'

end

/-! ### Purges -/

/-- `purgeTxidsCacheByBlockHeight`: the heights are removed from the slice of every
transaction; an empty slice is removed from the cache. -/
def purgeTxidsCacheByBlockHeight (s : Store) (txids : List GoString) (blockHeights : List UInt64) :
    Store :=
  { s with
    txidCache := s.txidCache.shrinkAll (fun l => blockHeights.foldl SortedSlice.remove l) txids }

/-- `store.getBlockHeightKeysFromTxidCache`. -/
def getBlockHeightKeysFromTxidCache (s : Store) (txids : List GoString) : Store × List UInt64 :=
  ({ s with txidCache := txids.foldl (fun c t => c.load [] t) s.txidCache },
    (txids.flatMap fun t => s.txidCache.valueAt [] t).eraseDups)

/-- Step 2 of `purgeBlockHeightCacheByTxids`: the transactions are removed from the slice of
every height, as often as they are found; an empty slice is removed from the cache. -/
def removeTxidsFromHeights (s : Store) (txids : List GoString) (blkHeightKeys : List UInt64) :
    Store :=
  { s with
    blockHeightCache := s.blockHeightCache.shrinkAll
      (fun l => txids.foldl (fun l txID => SortedSlice.removeLoop txID l.length l) l)
      blkHeightKeys }

/-- `store.purgeBlockHeightCacheByTxids`. -/
def purgeBlockHeightCacheByTxids (s : Store) (txids : List GoString) : Store :=
  let txids := txids.insertionSort (· ≤ ·)
  let (s₁, blkHeightKeys) := s.getBlockHeightKeysFromTxidCache txids
  let s₂ := s₁.removeTxidsFromHeights txids blkHeightKeys
  s₂.purgeTxidsCacheByBlockHeight txids blkHeightKeys

/-- `store.PurgeByTxids`. It sorts its argument in place, which is left out. -/
def purgeByTxids (s : Store) (txids : List GoString) : Store :=
  { s with cache := s.cache.eraseAll txids }.purgeBlockHeightCacheByTxids txids

section
variable (x : Externals) (maxBlockNumToRetain : UInt64)

def deleteBelow : GoMap GoString GoString → List GoString →
    GoMap GoString GoString × Except Err Unit
  | txMap, [] => (txMap, .ok ())
  | txMap, txK :: keys => match heightOfKey x txK with
    | .error e => (txMap, .error e)
    | .ok blkHeight =>
      deleteBelow (if blkHeight < maxBlockNumToRetain then txMap.erase txK else txMap) keys

/-- `store.purgeTxRWSetCacheByBlockHeight`. -/
def purgeTxRWSetCacheByBlockHeight : Store → List GoString → Store × Except Err Unit
  | s, [] => (s, .ok ())
  | s, txID :: txids =>
    let txMap := s.cache.valueAt ∅ txID
    let loaded := s.cache.load ∅ txID
    match deleteBelow x maxBlockNumToRetain txMap txMap.keys with
    | (txMap', .error e) => ({ s with cache := loaded.insert txID txMap' }, .error e)
    | (txMap', .ok ()) =>
      purgeTxRWSetCacheByBlockHeight
        { s with
          cache := if txMap'.keys = [] then loaded.erase txID else loaded.insert txID txMap' }
        txids

/-- `store.PurgeBelowHeight`, the heights in the order of the pairs. -/
def purgeBelowHeight (s : Store) : Store × Except Err Unit :=
  let below := s.blockHeightCache.toList.filter fun p => p.1 < maxBlockNumToRetain
  let txIDs := (below.flatMap Prod.snd).eraseDups
  let blkHgts := (below.map Prod.fst).eraseDups
  let s₁ := { s with blockHeightCache := s.blockHeightCache.eraseAll (below.map Prod.fst) }
  match purgeTxRWSetCacheByBlockHeight x maxBlockNumToRetain s₁ txIDs with
  | (s₂, .error e) => (s₂, .error e)
  | (s₂, .ok ()) => (s₂.purgeTxidsCacheByBlockHeight txIDs blkHgts, .ok ())

end

end Store

def errStoreEmpty : Err := .plain "Transient store is empty"

def minHeight (min k : UInt64) : UInt64 := if min = 0 ∨ k < min then k else min

/-- `store.GetMinTransientBlkHt`. -/
def Store.getMinTransientBlkHt (order : RangeOrder UInt64) (s : Store) : Except Err UInt64 :=
  let min := (order.order s.blockHeightCache.keys).foldl minHeight 0
  if min = 0 then .error errStoreEmpty else .ok min

end FabricPeerExt.Transientstore
