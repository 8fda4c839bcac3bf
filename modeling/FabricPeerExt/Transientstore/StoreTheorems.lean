/-
FabricPeerExt.Transientstore.StoreTheorems — the transient store against a multiset of
(transaction, height, write set): `store_refines_multiset_iff`, `getMinTransientBlkHt_iff`.

Transaction IDs and UUIDs are assumed free of NUL bytes, which separate the parts of a composite
key, and the UUIDs of a run are assumed to differ.
-/
import FabricPeerExt.PvtData.Instance
import Mathlib.Data.Multiset.Filter
import FabricPeerExt.Transientstore.Store

namespace FabricPeerExt.Transientstore

open Lib
open PvtData (GoString Err TxPvtReadWriteSet NsPvtReadWriteSet CollectionPvtReadWriteSet
  PvtNsCollFilter v11TrimPvtWSet)

section
variable (x : Externals)

/-! ## §1 Composite keys -/

theorem splitAtSep_append {part : Bytes} (rest : Bytes) (h : compositeKeySep ∉ part) :
    splitAtSep (part ++ compositeKeySep :: rest) = some (part, rest) := by
  induction part with
  | nil => rfl
  | cons b bs ih =>
    have hb : b ≠ compositeKeySep := fun hc => h (hc ▸ List.mem_cons_self)
    rw [List.cons_append, splitAtSep, if_neg hb, ih fun hc => h (List.mem_cons_of_mem b hc)]
    rfl

theorem splitCompositeKeyOfPvtRWSet_create {txid uuid : GoString} (height : UInt64)
    (ht : compositeKeySep ∉ txid) (hu : compositeKeySep ∉ uuid) :
    splitCompositeKeyOfPvtRWSet x (createCompositeKeyForPvtRWSet x txid uuid height) =
      .ok (uuid, height) := by
  have hdec := x.orderPreservingVarUint64.decode_encode height []
  rw [List.append_nil] at hdec
  simp only [createCompositeKeyForPvtRWSet, createCompositeKeyWithoutPrefixForTxid,
    List.append_assoc, List.cons_append, List.nil_append, splitCompositeKeyOfPvtRWSet,
    splitCompositeKeyWithoutPrefixForTxid, splitAtSep_append _ ht, splitAtSep_append _ hu, hdec]

/-- What a composite key is built from. -/
@[ext]
structure KeyParts where
  txid : GoString
  uuid : GoString
  height : UInt64
  txid_nulFree : compositeKeySep ∉ txid
  uuid_nulFree : compositeKeySep ∉ uuid

namespace KeyParts

def pvtRWSetKey (k : KeyParts) : Bytes := createCompositeKeyForPvtRWSet x k.txid k.uuid k.height

def purgeIndexKey (k : KeyParts) : Bytes :=
  createCompositeKeyForPurgeIndexByHeight x k.height k.txid k.uuid

theorem split_pvtRWSetKey (k : KeyParts) :
    splitCompositeKeyOfPvtRWSet x (k.pvtRWSetKey x) = .ok (k.uuid, k.height) :=
  splitCompositeKeyOfPvtRWSet_create x k.height k.txid_nulFree k.uuid_nulFree

theorem split_purgeIndexKey (k : KeyParts) :
    splitCompositeKeyOfPurgeIndexByHeight x (k.purgeIndexKey x) =
      .ok (k.txid, k.uuid, k.height) := by
  have hnul : ∀ name ∈ [k.txid, k.uuid], compositeKeySep ∉ name := by
    simp [k.txid_nulFree, k.uuid_nulFree]
  have hnames : (k.txid ++ compositeKeySep :: k.uuid).splitOn compositeKeySep =
      [k.txid, k.uuid] := by
    simpa [List.intercalate] using List.splitOn_intercalate compositeKeySep hnul (by simp)
  -- the height is read by its own length, so NUL bytes in it do not count as separators
  simp [purgeIndexKey, createCompositeKeyForPurgeIndexByHeight, hnames,
    splitCompositeKeyOfPurgeIndexByHeight, x.orderPreservingVarUint64.decode_encode k.height]

theorem pvtRWSetKey_injective : (pvtRWSetKey x).Injective := by
  intro k k' h
  have hsplit := k.split_pvtRWSetKey x
  rw [h, split_pvtRWSetKey] at hsplit
  obtain ⟨hu, hh⟩ := Prod.mk.inj (Except.ok.inj hsplit)
  -- the split skips the transaction ID, which ends at the first separator
  simp only [pvtRWSetKey, createCompositeKeyForPvtRWSet, createCompositeKeyWithoutPrefixForTxid,
    List.append_assoc, List.cons_append, List.nil_append, List.cons.injEq, true_and] at h
  have htx := congrArg splitAtSep h
  rw [splitAtSep_append _ k.txid_nulFree, splitAtSep_append _ k'.txid_nulFree] at htx
  exact KeyParts.ext (Prod.mk.inj (Option.some.inj htx)).1 hu.symm hh.symm

theorem purgeIndexKey_injective : (purgeIndexKey x).Injective := by
  intro k k' h
  have hsplit := k.split_purgeIndexKey x
  rw [h, split_purgeIndexKey] at hsplit
  simpa [KeyParts.ext_iff, eq_comm] using hsplit

end KeyParts

/-- **Composite keys are faithful.** Keys of both kinds split into the parts they were built
from, and keys of different parts or of different kinds differ. -/
theorem compositeKeys_faithful :
    (∀ k : KeyParts,
      splitCompositeKeyOfPvtRWSet x (k.pvtRWSetKey x) = .ok (k.uuid, k.height) ∧
      splitCompositeKeyOfPurgeIndexByHeight x (k.purgeIndexKey x) =
        .ok (k.txid, k.uuid, k.height)) ∧
    (KeyParts.pvtRWSetKey x).Injective ∧ (KeyParts.purgeIndexKey x).Injective ∧
    ∀ k k' : KeyParts, k.pvtRWSetKey x ≠ k'.purgeIndexKey x := by
  refine ⟨fun k => ⟨k.split_pvtRWSetKey x, k.split_purgeIndexKey x⟩,
    KeyParts.pvtRWSetKey_injective x, KeyParts.purgeIndexKey_injective x, fun k k' h => ?_⟩
  exact absurd (List.cons.inj h).1 (by decide)

/-- A height can have a NUL byte in its encoding. -/
example : compositeKeySep ∈ trimmedBe.encode 256 := by decide

/-! ## §2 Rows -/

/-- A write set given to `Persist`, with its marshalled form. -/
structure Row where
  txid : GoString
  uuid : GoString
  height : UInt64
  msg : TxPvtReadWriteSetWithConfigInfo
  bytes : Bytes

namespace Row

def key (r : Row) : GoString :=
  hexEncode (createCompositeKeyForPvtRWSet x r.txid r.uuid r.height)

def value (r : Row) : GoString := base64Encode (nilByte :: r.bytes)

/-- The row was marshalled, and the parts of its key can be told apart. -/
structure Ok (r : Row) : Prop where
  txid : compositeKeySep ∉ r.txid
  uuid : compositeKeySep ∉ r.uuid
  marshalled : x.configInfo.marshal r.msg = .ok r.bytes

variable {x}

theorem Ok.heightOfKey {r : Row} (h : r.Ok x) : heightOfKey x (r.key x) = .ok r.height := by
  simp only [Transientstore.heightOfKey, key, hexDecode_hexEncode,
    splitCompositeKeyOfPvtRWSet_create x r.height h.txid h.uuid]

theorem Ok.uuid_of_key {r r' : Row} (h : r.Ok x) (h' : r'.Ok x) (hk : r.key x = r'.key x) :
    r.uuid = r'.uuid :=
  congrArg KeyParts.uuid (@KeyParts.pvtRWSetKey_injective x ⟨_, _, r.height, h.txid, h.uuid⟩
    ⟨_, _, r'.height, h'.txid, h'.uuid⟩ (hexEncode_injective hk))

end Row

namespace Store

def setsOf (s : Store) (txid : GoString) : GoMap GoString GoString := s.cache.valueAt ∅ txid

end Store

def At (rows : List Row) (txid : GoString) (height : UInt64) : Prop :=
  ∃ r ∈ rows, r.txid = txid ∧ r.height = height

/-- The caches contain the rows. -/
structure Holds (rows : List Row) (s : Store) : Prop where
  ok : ∀ r ∈ rows, r.Ok x
  distinct : (rows.map Row.uuid).Nodup
  sets : ∀ t k v, (s.setsOf t).lookup k = some v ↔
    ∃ r ∈ rows, r.txid = t ∧ r.key x = k ∧ r.value = v
  heights : s.txidCache.Indexes (At rows) []
  txids : s.blockHeightCache.Indexes (fun h t => At rows t h) []

theorem holds_newStore : Holds x [] newStore where
  ok _ h := nomatch h
  distinct := List.nodup_nil
  sets t k v := by simp [Store.setsOf, newStore, GoMap.valueAt]
  heights := GoMap.indexes_empty.congr fun t h => by simp [At]
  txids := GoMap.indexes_empty.congr fun h t => by simp [At]

/-! ## §3 Steps -/

section
variable {x} {rows : List Row} {s : Store}

theorem at_concat {r : Row} {t : GoString} {h : UInt64} :
    At (rows ++ [r]) t h ↔ At rows t h ∨ (t = r.txid ∧ h = r.height) := by
  simp only [At, List.mem_append, List.mem_singleton, or_and_right, exists_or, exists_eq_left,
    eq_comm (a := t), eq_comm (a := h)]

theorem at_filter {p : Row → Bool} {q : GoString → UInt64 → Prop}
    (hpq : ∀ r ∈ rows, p r = true ↔ q r.txid r.height) {t : GoString} {h : UInt64} :
    At (rows.filter p) t h ↔ At rows t h ∧ q t h := by
  constructor
  · rintro ⟨r, hr, rfl, rfl⟩
    obtain ⟨hmem, hp⟩ := List.mem_filter.mp hr
    exact ⟨⟨r, hmem, rfl, rfl⟩, (hpq r hmem).mp hp⟩
  · rintro ⟨⟨r, hmem, rfl, rfl⟩, hq⟩
    exact ⟨r, List.mem_filter.mpr ⟨hmem, (hpq r hmem).mpr hq⟩, rfl, rfl⟩

theorem lookup_setTxidToBlockHeightCache (txid : GoString) (height h : UInt64) :
    (s.setTxidToBlockHeightCache txid height).blockHeightCache.lookup h =
      if h = height then some (SortedSlice.addNew (s.blockHeightCache.valueAt [] height) txid)
      else s.blockHeightCache.lookup h := by
  unfold Store.setTxidToBlockHeightCache SortedSlice.addNew
  simp only
  split
  · exact GoMap.lookup_load ..
  · rw [GoMap.lookup_insert_eq, GoMap.lookup_load]
    split
    · rfl
    · rfl

variable (txid t : GoString)

theorem lookup_updateTxidCache (height : UInt64) :
    (s.updateTxidCache txid height).txidCache.lookup t =
      if t = txid then some (SortedSlice.addNew (s.txidCache.valueAt [] txid) height)
      else s.txidCache.lookup t := by
  unfold Store.updateTxidCache SortedSlice.addNew
  simp only
  rw [GoMap.lookup_insert_eq, GoMap.lookup_load]
  split
  · rfl
  · rfl

theorem setsOf_setTxPvtWRSetToCache (key bytes : Bytes) :
    (s.setTxPvtWRSetToCache txid key bytes).setsOf t =
      if t = txid then (s.setsOf txid).insert (hexEncode key) (base64Encode bytes)
      else s.setsOf t := by
  unfold Store.setsOf Store.setTxPvtWRSetToCache
  simp only
  rw [GoMap.valueAt_insert, GoMap.valueAt_load]

@[simp] theorem setsOf_setTxidToBlockHeightCache (height : UInt64) :
    (s.setTxidToBlockHeightCache txid height).setsOf t = s.setsOf t := by
  unfold Store.setTxidToBlockHeightCache
  simp only
  split
  · rfl
  · rfl

@[simp] theorem txidCache_setTxidToBlockHeightCache (txid : GoString) (height : UInt64) :
    (s.setTxidToBlockHeightCache txid height).txidCache = s.txidCache := by
  unfold Store.setTxidToBlockHeightCache
  simp only
  split
  · rfl
  · rfl

@[simp] theorem setsOf_updateTxidCache (height : UInt64) :
    (s.updateTxidCache txid height).setsOf t = s.setsOf t := rfl

section
variable {r : Row} (hs : Holds x rows s) (hr : r.Ok x) (hnew : r.uuid ∉ rows.map Row.uuid)
include hs hr hnew

/-- The map of a transaction after a row with a new UUID was written. -/
theorem Holds.lookup_insert (k v : GoString) :
    ((s.setsOf r.txid).insert (r.key x) r.value).lookup k = some v ↔
      ∃ r' ∈ rows ++ [r], r'.txid = r.txid ∧ r'.key x = k ∧ r'.value = v := by
  have hkey : ∀ r' ∈ rows, r'.key x ≠ r.key x := fun r' hr' hc =>
    hnew ((hs.ok r' hr').uuid_of_key hr hc ▸ List.mem_map_of_mem hr')
  rw [GoMap.lookup_insert_eq]
  simp only [List.mem_append, List.mem_singleton, or_and_right, exists_or, exists_eq_left]
  split
  next h =>
    subst h
    constructor
    · exact fun hv => Or.inr ⟨trivial, rfl, Option.some.inj hv⟩
    · rintro (⟨r', hr', _, hk, _⟩ | ⟨_, _, hv⟩)
      · exact absurd hk (hkey r' hr')
      · rw [hv]
  next h =>
    rw [hs.sets]
    exact ⟨Or.inl, fun hor => hor.resolve_right fun hc => h hc.2.1.symm⟩

/-- `Persist` adds a row. -/
theorem Holds.persist : (s.persist x r.txid r.uuid r.height (some r.msg)).2 = .ok () ∧
      Holds x (rows ++ [r]) (s.persist x r.txid r.uuid r.height (some r.msg)).1 := by
  unfold Store.persist
  simp only [hr.marshalled]
  refine ⟨trivial, ?_, ?_, ?_, ?_, ?_⟩
  · intro r' hr'
    rcases List.mem_append.mp hr' with h | h
    · exact hs.ok r' h
    · exact List.mem_singleton.mp h ▸ hr
  · rw [List.map_append, List.nodup_append]
    refine ⟨hs.distinct, List.nodup_singleton _, fun a ha b hb => ?_⟩
    rintro rfl
    exact hnew (List.mem_singleton.mp hb ▸ ha)
  · intro t k v
    rw [setsOf_updateTxidCache, setsOf_setTxidToBlockHeightCache, setsOf_setTxPvtWRSetToCache]
    by_cases ht : t = r.txid
    · rw [if_pos ht, ht]
      exact hs.lookup_insert hr hnew k v
    · rw [if_neg ht, hs.sets]
      simp only [List.mem_append, List.mem_singleton, or_and_right, exists_or, exists_eq_left]
      exact ⟨Or.inl, fun hor => hor.resolve_right fun hc => ht hc.1.symm⟩
  · refine (hs.heights.addNew r.txid r.height fun t => ?_).congr fun t h => at_concat.symm
    rw [lookup_updateTxidCache, txidCache_setTxidToBlockHeightCache]
    rfl
  · refine (hs.txids.addNew r.height r.txid fun h => ?_).congr fun h t => ?_
    · exact lookup_setTxidToBlockHeightCache ..
    · rw [at_concat, and_comm (a := h = r.height)]

end

/-- A read changes nothing that is seen. -/
theorem Holds.load (hs : Holds x rows s) (txid : GoString) (filter : PvtNsCollFilter) :
    Holds x rows (s.getTxPvtRWSetByTxid txid filter).1 where
  ok := hs.ok
  distinct := hs.distinct
  sets t k v := by
    have heq : (s.getTxPvtRWSetByTxid txid filter).1.setsOf t = s.setsOf t :=
      GoMap.valueAt_load ..
    rw [heq, hs.sets]
  heights := hs.heights
  txids := hs.txids

/-- A step that keeps the rows with `p`, in all three caches. -/
theorem Holds.filter (hs : Holds x rows s) {s' : Store} {p : Row → Bool}
    (q : GoString → UInt64 → Prop) (hpq : ∀ r ∈ rows, p r = true ↔ q r.txid r.height)
    (hsets : ∀ t k v, (s'.setsOf t).lookup k = some v ↔
      ∃ r ∈ rows, (r.txid = t ∧ r.key x = k ∧ r.value = v) ∧ q r.txid r.height)
    (hheights : s'.txidCache.Indexes (fun t h => At rows t h ∧ q t h) [])
    (htxids : s'.blockHeightCache.Indexes (fun h t => At rows t h ∧ q t h) []) :
    Holds x (rows.filter p) s' where
  ok r hr := hs.ok r (List.mem_filter.mp hr).1
  distinct := hs.distinct.sublist (List.filter_sublist.map _)
  sets t k v := by
    rw [hsets]
    constructor
    · rintro ⟨r, hr, hrow, hq⟩
      exact ⟨r, List.mem_filter.mpr ⟨hr, (hpq r hr).mpr hq⟩, hrow⟩
    · rintro ⟨r, hr, hrow⟩
      obtain ⟨hmem, hp⟩ := List.mem_filter.mp hr
      exact ⟨r, hmem, hrow, (hpq r hmem).mp hp⟩
  heights := hheights.congr fun _ _ => (at_filter hpq).symm
  txids := htxids.congr fun _ _ => (at_filter hpq).symm

/-- The removal of transactions from a slice of transactions. -/
theorem ascending_removeLoops : ∀ (txids : List GoString) {l : List GoString},
    SortedSlice.Ascending l →
    SortedSlice.Ascending (txids.foldl (fun l t => SortedSlice.removeLoop t l.length l) l) ∧
      ∀ t, t ∈ txids.foldl (fun l t => SortedSlice.removeLoop t l.length l) l ↔
        t ∈ l ∧ ¬ t ∈ txids := by
  intro txids l hl
  have heq : ∀ {l : List GoString}, SortedSlice.Ascending l →
      txids.foldl (fun l t => SortedSlice.removeLoop t l.length l) l =
        txids.foldl SortedSlice.remove l := by
    clear hl
    intro l hl
    induction txids generalizing l with
    | nil => rfl
    | cons t ts ih =>
      rw [List.foldl_cons, List.foldl_cons, SortedSlice.removeLoop_eq_remove hl t le_rfl,
        ih (hl.remove t)]
  rw [heq hl]
  exact SortedSlice.ascending_foldl_remove txids hl

theorem mem_getBlockHeightKeys (hs : Holds x rows s) (txids : List GoString) (h : UInt64) :
    h ∈ (s.getBlockHeightKeysFromTxidCache txids).2 ↔ ∃ t ∈ txids, At rows t h := by
  unfold Store.getBlockHeightKeysFromTxidCache
  simp only [List.mem_eraseDups, List.mem_flatMap, hs.heights.mem]

/-- `PurgeByTxids` removes the rows of the transactions. -/
theorem Holds.purgeByTxids (hs : Holds x rows s) (txids : List GoString) :
    Holds x (rows.filter fun r => r.txid ∉ txids) (s.purgeByTxids txids) := by
  have hsorted : ∀ t, t ∈ txids.insertionSort (· ≤ ·) ↔ t ∈ txids :=
    fun t => List.mem_insertionSort _
  have hkeys : ∀ h, h ∈ (s.getBlockHeightKeysFromTxidCache (txids.insertionSort (· ≤ ·))).2 ↔
      ∃ t ∈ txids, At rows t h := by
    intro h
    simp only [mem_getBlockHeightKeys hs, hsorted]
  refine hs.filter (fun t _ => t ∉ txids) (fun r _ => by simp) ?_ ?_ ?_
  · intro t k v
    have heq : (s.purgeByTxids txids).setsOf t = (s.cache.eraseAll txids).valueAt ∅ t := rfl
    rw [heq, GoMap.valueAt_eraseAll]
    split
    next ht =>
      constructor
      · intro h
        cases h
      · rintro ⟨r, _, ⟨rfl, _⟩, hnot⟩
        exact absurd ht hnot
    next ht =>
      refine (hs.sets t k v).trans ⟨?_, ?_⟩
      · rintro ⟨r, hr, rfl, hrow⟩
        exact ⟨r, hr, ⟨rfl, hrow⟩, ht⟩
      · rintro ⟨r, hr, hrow, _⟩
        exact ⟨r, hr, hrow⟩
  · have hload : GoMap.Indexes
        ((txids.insertionSort (· ≤ ·)).foldl (fun c t => c.load [] t) s.txidCache)
        (At rows) (txids.insertionSort (· ≤ ·)) :=
      (hs.heights.except _).loadAll fun _ => id
    refine (hload.shrinkAll fun l hl => SortedSlice.ascending_foldl_remove
      (s.getBlockHeightKeysFromTxidCache (txids.insertionSort (· ≤ ·))).2 hl).congr fun t h => ?_
    refine and_congr_right fun hat => not_congr ⟨fun hc => (hsorted t).mp hc.1, fun ht => ?_⟩
    exact ⟨(hsorted t).mpr ht, (hkeys h).mpr ⟨t, ht, hat⟩⟩
  · refine ((hs.txids.except _).shrinkAll fun l hl =>
      ascending_removeLoops (txids.insertionSort (· ≤ ·)) hl).congr fun h t => ?_
    refine and_congr_right fun hat => not_congr ⟨fun hc => (hsorted t).mp hc.2, fun ht => ?_⟩
    exact ⟨(hkeys h).mpr ⟨t, ht, hat⟩, (hsorted t).mpr ht⟩

def Below (x : Externals) (maxBlockNumToRetain : UInt64) (key : GoString) : Prop :=
  ∃ h, heightOfKey x key = .ok h ∧ h < maxBlockNumToRetain

/-- The inner loop deletes the keys of a purged height. -/
theorem deleteBelow_ok (max : UInt64) : ∀ (keys : List GoString) (m : GoMap GoString GoString),
    (∀ k ∈ keys, ∃ h, heightOfKey x k = .ok h) →
      ∃ m', Store.deleteBelow x max m keys = (m', .ok ()) ∧
        ∀ k v, m'.lookup k = some v ↔ m.lookup k = some v ∧ ¬ (k ∈ keys ∧ Below x max k)
  | [], m, _ => ⟨m, rfl, fun k v => by simp⟩
  | key :: keys, m, hall => by
    obtain ⟨h, hh⟩ := hall key List.mem_cons_self
    obtain ⟨m', heq, hm'⟩ := deleteBelow_ok max keys (if h < max then m.erase key else m)
      fun k hk => hall k (List.mem_cons_of_mem key hk)
    refine ⟨m', by rw [Store.deleteBelow, hh]; exact heq, fun k v => ?_⟩
    have hbelow : Below x max key ↔ h < max :=
      ⟨fun ⟨h', hk', hlt⟩ => Except.ok.inj (hh.symm.trans hk') ▸ hlt, fun hlt => ⟨h, hh, hlt⟩⟩
    rw [hm', List.mem_cons]
    by_cases hk : k = key
    · subst hk
      rw [hbelow]
      split
      next hlt => simp [hlt]
      next hlt => simp [hlt]
    · split
      next => rw [GoMap.lookup_erase_eq, if_neg hk]; simp [hk]
      next => simp [hk]

/-- The map of a transaction after a round of the outer loop. -/
theorem lookup_setsOf_round (s : Store) (txid : GoString) (m' : GoMap GoString GoString)
    (t k : GoString) :
    (Store.setsOf { s with
      cache := if m'.keys = [] then (s.cache.load ∅ txid).erase txid
        else (s.cache.load ∅ txid).insert txid m' } t).lookup k =
      if t = txid then m'.lookup k else (s.setsOf t).lookup k := by
  unfold Store.setsOf
  simp only
  split
  next hempty =>
    have hnone : m'.lookup k = none := by
      rw [AList.lookup_eq_none, AList.mem_keys, hempty]
      exact List.not_mem_nil
    rw [GoMap.valueAt_erase, GoMap.valueAt_load]
    split
    · rw [hnone]
      rfl
    · rfl
  next =>
    rw [GoMap.valueAt_insert, GoMap.valueAt_load]
    split
    · rfl
    · rfl

/-- The loop over the transactions deletes the keys of a purged height from their maps. -/
theorem purgeTxRWSetCache_ok (max : UInt64) : ∀ (txids : List GoString) (s : Store),
    (∀ t k v, (s.setsOf t).lookup k = some v → ∃ h, heightOfKey x k = .ok h) →
      ∃ s', Store.purgeTxRWSetCacheByBlockHeight x max s txids = (s', .ok ()) ∧
        s'.txidCache = s.txidCache ∧ s'.blockHeightCache = s.blockHeightCache ∧
        ∀ t k v, (s'.setsOf t).lookup k = some v ↔
          (s.setsOf t).lookup k = some v ∧ ¬ (t ∈ txids ∧ Below x max k)
  | [], s, _ => ⟨s, rfl, rfl, rfl, fun t k v => by simp⟩
  | txid :: txids, s, hall => by
    have hkeys : ∀ k, k ∈ (s.setsOf txid).keys → ∃ v, (s.setsOf txid).lookup k = some v :=
      fun k hk => Option.isSome_iff_exists.mp (AList.lookup_isSome.mpr hk)
    obtain ⟨m', heq, hm'⟩ := deleteBelow_ok max (s.setsOf txid).keys (s.setsOf txid)
      fun k hk => (hkeys k hk).elim fun v hv => hall txid k v hv
    have hround : ∀ t k v, (if t = txid then m'.lookup k else (s.setsOf t).lookup k) = some v ↔
        (s.setsOf t).lookup k = some v ∧ ¬ (t = txid ∧ Below x max k) := by
      intro t k v
      split
      next h =>
        rw [hm', h]
        refine and_congr_right fun hv => not_congr (and_congr_left fun _ => ?_)
        exact iff_of_true (AList.lookup_isSome.mp (hv ▸ rfl)) rfl
      next h => simp [h]
    obtain ⟨s', hs', htx, hbh, hsets⟩ := purgeTxRWSetCache_ok max txids
      { s with
        cache := if m'.keys = [] then (s.cache.load ∅ txid).erase txid
          else (s.cache.load ∅ txid).insert txid m' }
      fun t k v hv => by
        rw [lookup_setsOf_round, hround] at hv
        exact hall t k v hv.1
    refine ⟨s', ?_, htx, hbh, fun t k v => ?_⟩
    · rw [Store.purgeTxRWSetCacheByBlockHeight]
      have heq' : Store.deleteBelow x max (s.cache.valueAt ∅ txid)
          (s.cache.valueAt ∅ txid).keys = (m', .ok ()) := heq
      simp only [heq']
      exact hs'
    · rw [hsets, lookup_setsOf_round, hround, List.mem_cons]
      tauto

/-- `PurgeBelowHeight` does not fail and removes the rows below the height. -/
theorem Holds.purgeBelowHeight (hs : Holds x rows s) (max : UInt64) :
    (s.purgeBelowHeight x max).2 = .ok () ∧
      Holds x (rows.filter fun r => ¬ r.height < max) (s.purgeBelowHeight x max).1 := by
  set below := s.blockHeightCache.toList.filter fun p => p.1 < max with hbelow
  have hkeyOk : ∀ t k v, (s.setsOf t).lookup k = some v → ∃ h, heightOfKey x k = .ok h := by
    intro t k v hv
    obtain ⟨r, hr, _, rfl, _⟩ := (hs.sets t k v).mp hv
    exact ⟨r.height, (hs.ok r hr).heightOfKey⟩
  -- the slices that are taken out of the index of heights name every row below the height
  have hnamed : ∀ t h, At rows t h → h < max →
      h ∈ below.map Prod.fst ∧ t ∈ (below.flatMap Prod.snd).eraseDups := by
    intro t h hat hlt
    obtain ⟨l, hl, ht⟩ := hs.txids.lookup hat
    have hmem : (h, l) ∈ below :=
      List.mem_filter.mpr ⟨GoMap.mem_toList.mpr hl, decide_eq_true hlt⟩
    exact ⟨List.mem_map_of_mem hmem,
      List.mem_eraseDups.mpr (List.mem_flatMap.mpr ⟨(h, l), hmem, ht⟩)⟩
  have hlow : ∀ h, h ∈ below.map Prod.fst → h < max := by
    intro h hh
    obtain ⟨p, hp, rfl⟩ := List.mem_map.mp hh
    exact of_decide_eq_true (List.mem_filter.mp hp).2
  obtain ⟨s', heq, htx, hbh, hsets⟩ := purgeTxRWSetCache_ok max
    (below.flatMap Prod.snd).eraseDups
    { s with blockHeightCache := s.blockHeightCache.eraseAll (below.map Prod.fst) } hkeyOk
  unfold Store.purgeBelowHeight
  simp only [← hbelow, heq]
  refine ⟨trivial, hs.filter (fun _ h => ¬ h < max) (fun r _ => by simp) ?_ ?_ ?_⟩
  · intro t k v
    refine (hsets t k v).trans ⟨?_, ?_⟩
    · rintro ⟨hv, hnot⟩
      obtain ⟨r, hr, rfl, rfl, hval⟩ := (hs.sets t k v).mp hv
      refine ⟨r, hr, ⟨rfl, rfl, hval⟩, fun hlt => hnot ⟨?_, ?_⟩⟩
      · exact (hnamed _ _ ⟨r, hr, rfl, rfl⟩ hlt).2
      · exact ⟨r.height, (hs.ok r hr).heightOfKey, hlt⟩
    · rintro ⟨r, hr, ⟨rfl, rfl, hval⟩, hnot⟩
      refine ⟨(hs.sets _ _ v).mpr ⟨r, hr, rfl, rfl, hval⟩, fun ⟨_, h, hh, hlt⟩ => hnot ?_⟩
      exact Except.ok.inj ((hs.ok r hr).heightOfKey.symm.trans hh) ▸ hlt
  · have hindex : s'.txidCache.Indexes (At rows) (below.flatMap Prod.snd).eraseDups :=
      htx ▸ hs.heights.except _
    refine (hindex.shrinkAll fun l hl => SortedSlice.ascending_foldl_remove _ hl).congr
      fun t h => and_congr_right fun hat => not_congr ⟨fun hc => ?_, fun hlt => ?_⟩
    · exact hlow h (List.mem_eraseDups.mp hc.2)
    · exact ⟨(hnamed t h hat hlt).2, List.mem_eraseDups.mpr (hnamed t h hat hlt).1⟩
  · have hindex : s'.blockHeightCache.Indexes
        (fun h t => At rows t h ∧ h ∉ below.map Prod.fst) [] :=
      hbh ▸ hs.txids.eraseAll (below.map Prod.fst)
    exact hindex.congr fun h t => and_congr_right fun hat =>
      not_congr ⟨hlow h, fun hlt => (hnamed t h hat hlt).1⟩

/-! ## §4 Scans -/

def outcome (filter : PvtNsCollFilter) (height : UInt64) (msg : TxPvtReadWriteSetWithConfigInfo) :
    Except Err Store.EndorserPvtSimulationResults :=
  (filterMessage msg filter).map fun filtered => ⟨height, filtered⟩

theorem Row.Ok.decodeResult {r : Row} (hr : r.Ok x) (filter : PvtNsCollFilter) :
    Store.decodeResult x filter (r.key x, r.value) = outcome filter r.height r.msg := by
  simp only [Store.decodeResult, hr.heightOfKey, Row.value, base64Decode_base64Encode, if_true,
    x.configInfo.unmarshal_marshal hr.marshalled, outcome]
  cases filterMessage r.msg filter with
  | error e => rfl
  | ok msg => rfl

/-- With enough calls every pair of the scanner is decoded, in order and once. -/
theorem drain_eq (x : Externals) : ∀ (fuel : Nat) (scanner : Store.RwsetScanner),
    scanner.results.length ≤ scanner.next + fuel →
    scanner.drain x fuel =
      (scanner.results.drop scanner.next).map (Store.decodeResult x scanner.filter)
  | 0, scanner, h => by
    rw [Nat.add_zero] at h
    rw [List.drop_eq_nil_of_le h]
    rfl
  | fuel + 1, scanner, h => by
    rw [Store.RwsetScanner.drain, Store.RwsetScanner.nextResult]
    cases hkv : scanner.results[scanner.next]? with
    | none =>
      rw [List.drop_eq_nil_of_le (List.getElem?_eq_none_iff.mp hkv)]
      rfl
    | some kv =>
      obtain ⟨hlt, hkv⟩ := List.getElem?_eq_some_iff.mp hkv
      simp only
      rw [drain_eq x fuel _ (by simp only; omega), List.drop_eq_getElem_cons hlt, hkv]
      rfl

/-- The pairs of a transaction are its rows. -/
theorem Holds.perm_toList (hs : Holds x rows s) (t : GoString) :
    (s.setsOf t).toList.Perm
      ((rows.filter fun r => r.txid = t).map fun r => (r.key x, r.value)) := by
  have hinj : ∀ r ∈ rows, ∀ r' ∈ rows, (r.key x, r.value) = (r'.key x, r'.value) → r = r' := by
    intro r hr r' hr' heq
    exact List.inj_on_of_nodup_map hs.distinct hr hr'
      ((hs.ok r hr).uuid_of_key (hs.ok r' hr') (Prod.mk.inj heq).1)
  have hrows : ((rows.filter fun r => r.txid = t).map fun r => (r.key x, r.value)).Nodup :=
    (hs.distinct.of_map.filter _).map_on fun r hr r' hr' =>
      hinj r (List.mem_filter.mp hr).1 r' (List.mem_filter.mp hr').1
  refine (List.perm_ext_iff_of_nodup (GoMap.nodup_toList _).of_map hrows).mpr fun kv => ?_
  rw [GoMap.mem_toList, hs.sets]
  simp only [List.mem_map, List.mem_filter, decide_eq_true_eq, Prod.ext_iff, and_assoc]

/-- A scan of a transaction returns its rows. -/
theorem Holds.perm_drain (hs : Holds x rows s) (t : GoString) (filter : PvtNsCollFilter)
    {fuel : Nat} (hfuel : (s.getTxPvtRWSetByTxid t filter).2.results.length ≤ fuel) :
    ((s.getTxPvtRWSetByTxid t filter).2.drain x fuel).Perm
      ((rows.filter fun r => r.txid = t).map fun r => outcome filter r.height r.msg) := by
  rw [drain_eq x fuel _ (by rw [Store.getTxPvtRWSetByTxid] at *; simpa using hfuel)]
  have hdecode : (rows.filter fun r => r.txid = t).map (fun r => outcome filter r.height r.msg) =
      ((rows.filter fun r => r.txid = t).map fun r => (r.key x, r.value)).map
        (Store.decodeResult x filter) := by
    rw [List.map_map]
    exact List.map_congr_left fun r hr =>
      ((hs.ok r (List.mem_filter.mp hr).1).decodeResult filter).symm
  rw [hdecode]
  exact (hs.perm_toList t).map _

end

/-! ## §5 Filters -/

/-- The collections of a write set, each with its namespace. -/
def collectionsOf (w : Option TxPvtReadWriteSet) : List (GoString × CollectionPvtReadWriteSet) :=
  (w.toList.flatMap (·.nsPvtRwset)).flatMap fun ns =>
    ns.collectionPvtRwset.map (ns.namespaceName, ·)

def CollectionConfig.name? : CollectionConfig → Option GoString
  | .static name _ => some name
  | .other => none

/-- What a filter is for: the write set has the collections that pass it and nothing that is
empty, and every package has the configurations that pass it. -/
structure Filtered (has : GoString → GoString → Bool)
    (msg filtered : TxPvtReadWriteSetWithConfigInfo) : Prop where
  collections : collectionsOf filtered.pvtRwset =
    (collectionsOf msg.pvtRwset).filter fun c => has c.1 c.2.collectionName
  dataModel : ∀ w ∈ filtered.pvtRwset, some w.dataModel = msg.pvtRwset.map (·.dataModel)
  full : ∀ w ∈ filtered.pvtRwset, w.nsPvtRwset ≠ [] ∧
    ∀ ns ∈ w.nsPvtRwset, ns.collectionPvtRwset ≠ []
  configs : ∀ ns, filtered.collectionConfigs.lookup ns =
    (msg.collectionConfigs.lookup ns).map (List.filter fun c => c.name?.any (has ns))

/-- A stored message that a filter can be applied to: a nil filter to every message. -/
def Filterable (filter : PvtNsCollFilter) (msg : TxPvtReadWriteSetWithConfigInfo) : Prop :=
  filter = none ∨ msg.pvtRwset ≠ none ∧
    ∀ ns configs, msg.collectionConfigs.lookup ns = some configs → .other ∉ configs

theorem collectionsOf_unlessEmpty (dataModel : UInt32) (nss : List NsPvtReadWriteSet) :
    collectionsOf (if nss.isEmpty then none else some ⟨dataModel, nss⟩) =
      nss.flatMap fun ns => ns.collectionPvtRwset.map (ns.namespaceName, ·) := by
  cases nss with
  | nil => rfl
  | cons ns nss => simp [collectionsOf]

theorem collectionsOf_v11TrimPvtWSet (has : GoString → GoString → Bool) (w : TxPvtReadWriteSet) :
    collectionsOf (v11TrimPvtWSet w (some has)) =
      (collectionsOf (some w)).filter fun c => has c.1 c.2.collectionName := by
  obtain ⟨dataModel, nss⟩ := w
  simp only [v11TrimPvtWSet, collectionsOf_unlessEmpty]
  rw [collectionsOf, Option.toList_some, List.flatMap_singleton]
  induction nss with
  | nil => rfl
  | cons ns nss ih =>
    have hns : (ns.collectionPvtRwset.map (ns.namespaceName, ·)).filter
        (fun c => has c.1 c.2.collectionName) =
          (ns.collectionPvtRwset.filter fun coll =>
            has ns.namespaceName coll.collectionName).map (ns.namespaceName, ·) := by
      rw [List.filter_map]
      rfl
    rw [List.flatMap_cons, List.filter_append, hns, ← ih, List.filterMap_cons]
    cases ns.collectionPvtRwset.filter fun coll => has ns.namespaceName coll.collectionName with
    | nil => rfl
    | cons coll colls => rfl

theorem trimConfigs_eq (has : GoString → Bool) (configs : List CollectionConfig) :
    trimConfigs has configs = if .other ∈ configs then .error (.plain "unexpected collection type")
      else .ok (configs.filter fun c => c.name?.any has) := by
  induction configs with
  | nil => rfl
  | cons c configs ih =>
    cases c with
    | other => simp [trimConfigs]
    | static name fields =>
      rw [trimConfigs, ih]
      by_cases h : .other ∈ configs
      · simp [h]
      · simp [h, List.filter_cons, CollectionConfig.name?]

/-- The configurations of a namespace that are trimmed without an error are the ones that
pass the filter. -/
theorem trimPvtCollectionConfigs_ok {has : GoString → GoString → Bool}
    {configs trimmed : GoMap GoString (List CollectionConfig)}
    (h : trimPvtCollectionConfigs configs (some has) = .ok trimmed) :
    (∀ ns cs, configs.lookup ns = some cs → .other ∉ cs) ∧ ∀ ns, trimmed.lookup ns =
      (configs.lookup ns).map (List.filter fun c => c.name?.any (has ns)) := by
  rw [trimPvtCollectionConfigs] at h
  cases hpairs : collect (fun p => (trimConfigs (has p.1) p.2).map (p.1, ·)) configs.toList with
  | error e => rw [hpairs] at h; cases h
  | ok pairs =>
    rw [hpairs] at h
    obtain rfl := Except.ok.inj h
    have hstatic : ∀ p ∈ configs.toList, .other ∉ p.2 := fun p hp => by
      obtain ⟨b, hb⟩ := collect_ok_of_mem hpairs hp
      intro hother
      rw [trimConfigs_eq, if_pos hother] at hb
      cases hb
    refine ⟨fun ns cs hl => hstatic (ns, cs) (GoMap.mem_toList.mpr hl), fun ns => ?_⟩
    have hmap : pairs.map id =
        configs.toList.map fun p => (p.1, p.2.filter fun c => c.name?.any (has p.1)) :=
      map_collect hpairs fun p hp b hb => by
        rw [trimConfigs_eq, if_neg (hstatic p hp)] at hb
        exact (Except.ok.inj hb).symm
    rw [GoMap.lookup_insertAll, AList.lookup_empty, Option.or_none, ← List.map_id pairs, hmap,
      GoMap.lastValue_map (fun ns => List.filter fun c : CollectionConfig => c.name?.any (has ns)),
      GoMap.lastValue_toList]

theorem trimPvtCollectionConfigs_succeeds (has : GoString → GoString → Bool)
    {configs : GoMap GoString (List CollectionConfig)}
    (h : ∀ ns cs, configs.lookup ns = some cs → .other ∉ cs) :
    ∃ trimmed, trimPvtCollectionConfigs configs (some has) = .ok trimmed := by
  have hall : ∀ p ∈ configs.toList, ∃ b,
      (trimConfigs (has p.1) p.2).map (p.1, ·) = .ok b := fun p hp =>
    ⟨_, by rw [trimConfigs_eq, if_neg (h p.1 p.2 (GoMap.mem_toList.mp hp))]; rfl⟩
  obtain ⟨pairs, hpairs⟩ := collect_succeeds hall
  exact ⟨_, by rw [trimPvtCollectionConfigs, hpairs]; rfl⟩

theorem filtered_of_ok {has : GoString → GoString → Bool}
    {msg filtered : TxPvtReadWriteSetWithConfigInfo}
    (h : filterMessage msg (some has) = .ok filtered) :
    Filtered has msg filtered ∧ Filterable (some has) msg := by
  rw [filterMessage] at h
  cases hw : msg.pvtRwset with
  | none => rw [hw] at h; cases h
  | some w =>
    rw [hw, trimPvtWSet] at h
    cases hc : trimPvtCollectionConfigs msg.collectionConfigs (some has) with
    | error e => rw [hc] at h; cases h
    | ok configs =>
      rw [hc] at h
      obtain rfl := Except.ok.inj h
      obtain ⟨hstatic, hlookup⟩ := trimPvtCollectionConfigs_ok hc
      refine ⟨⟨?_, ?_, ?_, hlookup⟩, Or.inr ⟨hw ▸ Option.some_ne_none w, hstatic⟩⟩
      · rw [hw, collectionsOf_v11TrimPvtWSet]
      · intro w' hw'
        simp only [v11TrimPvtWSet] at hw'
        split at hw'
        · cases hw'
        · cases hw'
          rw [hw]
          rfl
      · intro w' hw'
        simp only [v11TrimPvtWSet, List.isEmpty_iff] at hw'
        split at hw'
        · cases hw'
        next hne =>
          cases hw'
          refine ⟨hne, fun ns hns => ?_⟩
          obtain ⟨ns', _, hns'⟩ := List.mem_filterMap.mp hns
          split at hns'
          · cases hns'
          next hcolls => exact Option.some.inj hns' ▸ fun h => hcolls h

theorem filterMessage_succeeds {filter : PvtNsCollFilter} {msg : TxPvtReadWriteSetWithConfigInfo}
    (h : Filterable filter msg) : ∃ filtered, filterMessage msg filter = .ok filtered := by
  cases filter with
  | none => exact ⟨_, rfl⟩
  | some has =>
    obtain ⟨hw, hstatic⟩ := h.resolve_left (Option.some_ne_none has)
    obtain ⟨w, hw⟩ := Option.ne_none_iff_exists'.mp hw
    obtain ⟨configs, hc⟩ := trimPvtCollectionConfigs_succeeds has hstatic
    exact ⟨_, by rw [filterMessage, hw, trimPvtWSet, hc]⟩

/-! ## §6 Runs -/

/-- The calls of the store; a call of `Persist` comes with the UUID it generates. -/
inductive Op where
  | persist (txid uuid : GoString) (blockHeight : UInt64)
      (msg : Option TxPvtReadWriteSetWithConfigInfo)
  | purgeByTxids (txids : List GoString)
  | purgeBelowHeight (maxBlockNumToRetain : UInt64)
  | getTxPvtRWSetByTxid (txid : GoString) (filter : PvtNsCollFilter)

namespace Op

def uuid : Op → Option GoString
  | .persist _ uuid _ _ => some uuid
  | _ => none

/-- The parts of the composite key a call builds have no separator in them. -/
def NulFree : Op → Prop
  | .persist txid uuid _ _ => compositeKeySep ∉ txid ∧ compositeKeySep ∉ uuid
  | _ => True

instance : ∀ op : Op, Decidable op.NulFree
  | .persist txid uuid _ _ =>
    inferInstanceAs (Decidable (compositeKeySep ∉ txid ∧ compositeKeySep ∉ uuid))
  | .purgeByTxids _ => inferInstanceAs (Decidable True)
  | .purgeBelowHeight _ => inferInstanceAs (Decidable True)
  | .getTxPvtRWSetByTxid _ _ => inferInstanceAs (Decidable True)

def step (s : Store) : Op → Store
  | .persist txid uuid blockHeight msg => (s.persist x txid uuid blockHeight msg).1
  | .purgeByTxids txids => s.purgeByTxids txids
  | .purgeBelowHeight maxBlockNumToRetain => (s.purgeBelowHeight x maxBlockNumToRetain).1
  | .getTxPvtRWSetByTxid txid filter => (s.getTxPvtRWSetByTxid txid filter).1

end Op

/-- An entry of the specification. -/
structure Entry where
  txid : GoString
  height : UInt64
  msg : TxPvtReadWriteSetWithConfigInfo

/-- What a call does to the multiset of the entries. A message that cannot be marshalled is
not added. -/
def specStep (entries : Multiset Entry) : Op → Multiset Entry
  | .persist _ _ _ none => entries
  | .persist txid _ blockHeight (some msg) => match x.configInfo.marshal msg with
    | .error _ => entries
    | .ok _ => ⟨txid, blockHeight, msg⟩ ::ₘ entries
  | .purgeByTxids txids => entries.filter fun e => e.txid ∉ txids
  | .purgeBelowHeight maxBlockNumToRetain =>
    entries.filter fun e => ¬ e.height < maxBlockNumToRetain
  | .getTxPvtRWSetByTxid _ _ => entries

def Row.entry (r : Row) : Entry := ⟨r.txid, r.height, r.msg⟩

def entriesOf (rows : List Row) : Multiset Entry := (rows.map Row.entry : List Entry)

theorem entriesOf_filter (rows : List Row) (p : Entry → Prop) [DecidablePred p] :
    entriesOf (rows.filter fun r => p r.entry) = (entriesOf rows).filter p := by
  rw [entriesOf, entriesOf, Multiset.filter_coe, List.filter_map]
  rfl

variable {x} in
/-- Every call keeps the rows and the specification together. -/
theorem Holds.step {rows : List Row} {s : Store} (hs : Holds x rows s) (op : Op)
    (hnul : op.NulFree) (hnew : ∀ u ∈ op.uuid, u ∉ rows.map Row.uuid) :
    ∃ rows', Holds x rows' (op.step x s) ∧ specStep x (entriesOf rows) op = entriesOf rows' ∧
      ∀ u ∈ rows'.map Row.uuid, u ∈ rows.map Row.uuid ∨ u ∈ op.uuid := by
  have hsub : ∀ p : Row → Bool, ∀ u ∈ (rows.filter p).map Row.uuid, u ∈ rows.map Row.uuid :=
    fun p => List.map_subset _ (List.filter_subset_self rows)
  cases op with
  | persist txid uuid height msg =>
    cases msg with
    | none => exact ⟨rows, hs, rfl, fun u => Or.inl⟩
    | some msg =>
      cases hm : x.configInfo.marshal msg with
      | error e =>
        refine ⟨rows, ?_, ?_, fun u => Or.inl⟩
        · simpa only [Op.step, Store.persist, hm] using hs
        · simp only [specStep, hm]
      | ok bytes =>
        refine ⟨rows ++ [⟨txid, uuid, height, msg, bytes⟩], ?_, ?_, fun u hu => ?_⟩
        · exact (hs.persist ⟨hnul.1, hnul.2, hm⟩ (hnew uuid rfl)).2
        · simp only [specStep, hm, entriesOf, List.map_append, Multiset.cons_coe]
          exact Multiset.coe_eq_coe.mpr (List.perm_append_singleton _ _).symm
        · rw [List.map_append, List.mem_append] at hu
          exact hu.imp_right fun h => congrArg some (List.mem_singleton.mp h).symm
  | purgeByTxids txids =>
    exact ⟨_, hs.purgeByTxids txids, (entriesOf_filter rows fun e => e.txid ∉ txids).symm,
      fun u hu => Or.inl (hsub _ u hu)⟩
  | purgeBelowHeight max =>
    exact ⟨_, (hs.purgeBelowHeight max).2,
      (entriesOf_filter rows fun e => ¬ e.height < max).symm, fun u hu => Or.inl (hsub _ u hu)⟩
  | getTxPvtRWSetByTxid txid filter =>
    exact ⟨rows, hs.load txid filter, rfl, fun u => Or.inl⟩

variable {x} in
theorem Holds.run {ops : List Op} : ∀ {rows : List Row} {s : Store}, Holds x rows s →
    (ops.filterMap Op.uuid).Nodup → (∀ op ∈ ops, op.NulFree) →
    (∀ u ∈ ops.filterMap Op.uuid, u ∉ rows.map Row.uuid) →
    ∃ rows', Holds x rows' (Lib.run (Op.step x) s ops) ∧
      Lib.run (specStep x) (entriesOf rows) ops = entriesOf rows' := by
  induction ops with
  | nil => exact fun hs _ _ _ => ⟨_, hs, rfl⟩
  | cons op ops ih =>
    intro rows s hs hnodup hnul hnew
    have hmem : ∀ u ∈ op.uuid, u ∈ (op :: ops).filterMap Op.uuid := fun u hu =>
      List.mem_filterMap.mpr ⟨op, List.mem_cons_self, hu⟩
    have htail : (ops.filterMap Op.uuid).Sublist ((op :: ops).filterMap Op.uuid) :=
      (List.sublist_cons_self op ops).filterMap _
    obtain ⟨rows', hs', hspec, huuid⟩ := hs.step op (hnul op List.mem_cons_self)
      fun u hu => hnew u (hmem u hu)
    rw [run_cons, run_cons, hspec]
    refine ih hs' (hnodup.sublist htail) (fun o ho => hnul o (List.mem_cons_of_mem op ho)) ?_
    intro u hu hc
    rcases huuid u hc with h | h
    · exact hnew u (htail.subset hu) h
    · rw [List.filterMap_cons_some h] at hnodup
      exact (List.nodup_cons.mp hnodup).1 hu

/-- The three caches agree: a transaction is listed at a height if the height is listed for
the transaction, and if the transaction has a write set of that height; the slices are
ascending, and no slice is empty. -/
structure Coherent (s : Store) : Prop where
  txids_iff_heights : ∀ t h, t ∈ s.blockHeightCache.valueAt [] h ↔ h ∈ s.txidCache.valueAt [] t
  heights_iff_sets : ∀ t h, h ∈ s.txidCache.valueAt [] t ↔
    ∃ k ∈ (s.setsOf t).keys, heightOfKey x k = .ok h
  keys_ok : ∀ t, ∀ k ∈ (s.setsOf t).keys, ∃ h, heightOfKey x k = .ok h
  heights_ascending : ∀ t, SortedSlice.Ascending (s.txidCache.valueAt [] t)
  txids_ascending : ∀ h, SortedSlice.Ascending (s.blockHeightCache.valueAt [] h)
  heights_full : s.txidCache.Full []
  txids_full : s.blockHeightCache.Full []

variable {x} in
theorem Holds.coherent {rows : List Row} {s : Store} (hs : Holds x rows s) : Coherent x s where
  txids_iff_heights t h := (hs.txids.mem h t).trans (hs.heights.mem t h).symm
  heights_iff_sets t h := by
    rw [hs.heights.mem]
    constructor
    · rintro ⟨r, hr, rfl, rfl⟩
      refine ⟨r.key x, ?_, (hs.ok r hr).heightOfKey⟩
      have hv := (hs.sets r.txid (r.key x) r.value).mpr ⟨r, hr, rfl, rfl, rfl⟩
      exact AList.lookup_isSome.mp (hv ▸ rfl)
    · rintro ⟨k, hk, hh⟩
      obtain ⟨v, hv⟩ := Option.isSome_iff_exists.mp (AList.lookup_isSome.mpr hk)
      obtain ⟨r, hr, rfl, rfl, _⟩ := (hs.sets t k v).mp hv
      exact ⟨r, hr, rfl, Except.ok.inj ((hs.ok r hr).heightOfKey.symm.trans hh)⟩
  keys_ok t k hk := by
    obtain ⟨v, hv⟩ := Option.isSome_iff_exists.mp (AList.lookup_isSome.mpr hk)
    obtain ⟨r, hr, _, rfl, _⟩ := (hs.sets t k v).mp hv
    exact ⟨r.height, (hs.ok r hr).heightOfKey⟩
  heights_ascending := hs.heights.ascending
  txids_ascending := hs.txids.ascending
  heights_full := hs.heights.full
  txids_full := hs.txids.full

/-- What a scan is to return of a stored message. -/
def Returned (filter : PvtNsCollFilter) (e : Entry) :
    Except Err Store.EndorserPvtSimulationResults → Prop
  | .error _ => False
  | .ok r => r.receivedAtBlockHeight = e.height ∧ match filter with
    | none => r.pvtSimulationResultsWithConfig = e.msg
    | some has => Filtered has e.msg r.pvtSimulationResultsWithConfig

theorem filterable_of_returned {filter : PvtNsCollFilter} {e e' : Entry}
    (h : Returned filter e' (outcome filter e.height e.msg)) : Filterable filter e.msg := by
  cases filter with
  | none => exact Or.inl rfl
  | some has =>
    rw [outcome] at h
    cases hf : filterMessage e.msg (some has) with
    | error err => rw [hf] at h; exact h.elim
    | ok filtered => exact (filtered_of_ok hf).2

theorem returned_outcome {filter : PvtNsCollFilter} {e : Entry} (h : Filterable filter e.msg) :
    Returned filter e (outcome filter e.height e.msg) := by
  obtain ⟨filtered, hf⟩ := filterMessage_succeeds h
  rw [outcome, hf]
  cases filter with
  | none => exact ⟨rfl, (Except.ok.inj hf).symm⟩
  | some has => exact ⟨rfl, (filtered_of_ok hf).1⟩

theorem rel_returned_iff {filter : PvtNsCollFilter} {entries : Multiset Entry} :
    Multiset.Rel (Returned filter) entries
        (entries.map fun e => outcome filter e.height e.msg) ↔
      ∀ e ∈ entries, Filterable filter e.msg := by
  rw [Multiset.rel_map_right]
  constructor
  · intro h e he
    obtain ⟨e', _, hr⟩ := Multiset.exists_mem_of_rel_of_mem (Multiset.rel_flip.mpr h) he
    exact filterable_of_returned hr
  · exact fun h => Multiset.rel_refl_of_refl_on fun e he => returned_outcome (h e he)

/-- After every run the caches agree and a purge by height does not fail. A scan of a
transaction returns the entries that the specification has for it, each filtered and once
each, exactly if the filter can be applied to all of them. -/
theorem store_refines_multiset_iff (ops : List Op) (hnul : ∀ op ∈ ops, op.NulFree)
    (huuid : (ops.filterMap Op.uuid).Nodup) :
    let s := Lib.run (Op.step x) newStore ops
    let entries := Lib.run (specStep x) 0 ops
    Coherent x s ∧
      (∀ maxBlockNumToRetain, (s.purgeBelowHeight x maxBlockNumToRetain).2 = .ok ()) ∧
      ∀ txid filter fuel, (s.getTxPvtRWSetByTxid txid filter).2.results.length ≤ fuel →
        (Multiset.Rel (Returned filter) (entries.filter fun e => e.txid = txid)
            ((s.getTxPvtRWSetByTxid txid filter).2.drain x fuel : List _) ↔
          ∀ e ∈ entries, e.txid = txid → Filterable filter e.msg) := by
  obtain ⟨rows, hs, hspec⟩ := (holds_newStore x).run huuid hnul (fun u _ => List.not_mem_nil)
  have hspec' : Lib.run (specStep x) 0 ops = entriesOf rows := hspec
  refine ⟨hs.coherent, fun max => (hs.purgeBelowHeight max).1, fun txid filter fuel hfuel => ?_⟩
  have hdrain : (((Lib.run (Op.step x) newStore ops).getTxPvtRWSetByTxid txid filter).2.drain x
      fuel : Multiset _) = ((entriesOf rows).filter fun e => e.txid = txid).map
        fun e => outcome filter e.height e.msg := by
    rw [← entriesOf_filter, entriesOf, Multiset.map_coe, List.map_map]
    exact Multiset.coe_eq_coe.mpr (hs.perm_drain txid filter hfuel)
  simp only [hspec', hdrain, rel_returned_iff, Multiset.mem_filter, and_imp]

/-! ## §7 The smallest height -/

def IsMin (entries : Multiset Entry) : Except Err UInt64 → Prop
  | .error e => e = errStoreEmpty ∧ entries = 0
  | .ok h => (∃ e ∈ entries, e.height = h) ∧ ∀ e ∈ entries, h ≤ e.height

theorem Holds.mem_keys {rows : List Row} {s : Store} (hs : Holds x rows s) (h : UInt64) :
    h ∈ s.blockHeightCache.keys ↔ ∃ e ∈ entriesOf rows, e.height = h := by
  have hrows : (∃ e ∈ entriesOf rows, e.height = h) ↔ ∃ t, At rows t h := by
    simp [entriesOf, At, Row.entry]
  rw [hrows, ← AList.mem_keys, ← AList.lookup_isSome, Option.isSome_iff_exists]
  constructor
  · rintro ⟨txids, hl⟩
    obtain ⟨t, ht⟩ := List.exists_mem_of_ne_nil _ (hs.txids.full h txids List.not_mem_nil hl)
    exact ⟨t, (hs.txids.mem h t).mp (by rwa [GoMap.valueAt, hl])⟩
  · rintro ⟨t, ht⟩
    obtain ⟨txids, hl, _⟩ := hs.txids.lookup ht
    exact ⟨txids, hl⟩

/-- Among heights that are not zero the loop finds the smallest. -/
theorem foldl_minHeight {ks : List UInt64} (h0 : 0 ∉ ks) :
    (ks.foldl minHeight 0 = 0 ↔ ks = []) ∧ (ks ≠ [] → ks.foldl minHeight 0 ∈ ks) ∧
      ∀ k ∈ ks, ks.foldl minHeight 0 ≤ k := by
  induction ks using List.reverseRecOn with
  | nil => simp
  | append_singleton ks k ih =>
    obtain ⟨hzero, hmem, hle⟩ := ih fun h => h0 (List.mem_append_left _ h)
    have hk : k ≠ 0 := fun h => h0 (by simp [h])
    rw [List.foldl_concat, minHeight]
    by_cases hks : ks = []
    · subst hks
      simp [hk]
    have hne : ks.foldl minHeight 0 ≠ 0 := mt hzero.mp hks
    by_cases hlt : k < ks.foldl minHeight 0
    · rw [if_pos (Or.inr hlt)]
      simp only [hk, List.mem_append, List.mem_singleton, or_true]
      refine ⟨by simp, fun _ => trivial, ?_⟩
      rintro j (hj | rfl)
      · exact UInt64.le_trans (UInt64.le_of_lt hlt) (hle j hj)
      · exact UInt64.le_refl _
    · rw [if_neg (by simp [hne, hlt])]
      simp only [hne, List.mem_append, List.mem_singleton]
      refine ⟨by simp, fun _ => Or.inl (hmem hks), ?_⟩
      rintro j (hj | rfl)
      · exact hle j hj
      · exact UInt64.not_lt.mp hlt

/-- After every run the minimum is right exactly if no stored entry has height 0. -/
theorem getMinTransientBlkHt_iff (order : RangeOrder UInt64) (ops : List Op)
    (hnul : ∀ op ∈ ops, op.NulFree) (huuid : (ops.filterMap Op.uuid).Nodup) :
    IsMin (Lib.run (specStep x) 0 ops)
        ((Lib.run (Op.step x) newStore ops).getMinTransientBlkHt order) ↔
      ∀ e ∈ Lib.run (specStep x) 0 ops, e.height ≠ 0 := by
  obtain ⟨rows, hs, hspec⟩ := (holds_newStore x).run huuid hnul (fun u _ => List.not_mem_nil)
  rw [show Lib.run (specStep x) 0 ops = entriesOf rows from hspec]
  have hkeys : ∀ h, h ∈ order.order (Lib.run (Op.step x) newStore ops).blockHeightCache.keys ↔
      ∃ e ∈ entriesOf rows, e.height = h := fun h =>
    (order.perm _).mem_iff.trans (hs.mem_keys x h)
  unfold Store.getMinTransientBlkHt
  generalize order.order _ = ks at hkeys
  constructor
  · intro hmin e he h0
    simp only at hmin
    split at hmin
    · exact Multiset.notMem_zero e (hmin.2 ▸ he)
    next hne => exact hne (UInt64.le_zero_iff.mp (h0 ▸ hmin.2 e he))
  · intro hpos
    obtain ⟨hzero, hmem, hle⟩ := @foldl_minHeight ks fun h0 => by
      obtain ⟨e, he, heq⟩ := (hkeys 0).mp h0
      exact hpos e he heq
    simp only
    split
    next h0 =>
      refine ⟨rfl, Multiset.eq_zero_of_forall_notMem fun e he => ?_⟩
      exact List.not_mem_nil (hzero.mp h0 ▸ (hkeys e.height).mpr ⟨e, he, rfl⟩)
    next hne =>
      exact ⟨(hkeys _).mp (hmem (mt hzero.mpr hne)), fun e he => hle _ ((hkeys _).mpr ⟨e, he, rfl⟩)⟩

end

/-! ### The parameters, once concretely -/

open SelfDelimiting

def collectionConfigCodec : SelfDelimiting CollectionConfig :=
  (listOf (pair PvtData.bytesCodec PvtData.bytesCodec)).image
    (fun | .static name fields => [(name, fields)] | .other => [])
    (fun | [(name, fields)] => some (.static name fields) | _ => some .other)
    (fun c => by cases c <;> rfl)

def configInfoCodec : SelfDelimiting TxPvtReadWriteSetWithConfigInfo :=
  (pair (listOf PvtData.txPvtRwsetCodec)
      (mapOf PvtData.bytesCodec (listOf collectionConfigCodec))).image
    (fun m => (m.pvtRwset.toList, m.collectionConfigs))
    (fun p => some ⟨p.1.head?, p.2⟩)
    (fun m => by cases m with | mk w c => cases w <;> rfl)

def plainExternals : Externals where
  orderPreservingVarUint64 := trimmedBe
  txPvtRwset := PvtData.txPvtRwsetCodec.toMarshaler
  configInfo := configInfoCodec.toMarshaler

def sampleMsg : TxPvtReadWriteSetWithConfigInfo :=
  ⟨some ⟨0, [⟨[110], [⟨[99], [1, 2]⟩]⟩]⟩, (∅ : GoMap GoString _).insert [110] [.static [99] []]⟩

def sampleOps : List Op :=
  [.persist [116] [1] 5 (some sampleMsg), .persist [116] [2] 3 (some sampleMsg),
    .persist [117] [3] 7 (some sampleMsg), .getTxPvtRWSetByTxid [118] none,
    .purgeBelowHeight 4, .purgeByTxids [[117], [118]]]

theorem eq_of_lookup_single {ns k : GoString} {configs configs' : List CollectionConfig}
    (h : ((∅ : GoMap GoString _).insert ns configs).lookup k = some configs') :
    configs = configs' := by
  rw [GoMap.lookup_insert_eq] at h
  split at h
  · exact Option.some.inj h
  · cases h

/-- A message with a collection that `onlyC` keeps and two that it leaves out. -/
def mixedMsg : TxPvtReadWriteSetWithConfigInfo :=
  ⟨some ⟨0, [⟨[110], [⟨[100], [3]⟩, ⟨[99], [1, 2]⟩]⟩, ⟨[111], [⟨[100], [4]⟩]⟩]⟩,
    (∅ : GoMap GoString _).insert [110] [.static [99] [], .static [100] []]⟩

def onlyC : PvtNsCollFilter := some fun _ coll => coll = [99]

example : filterMessage mixedMsg onlyC = .ok sampleMsg := rfl

def mixedOps : List Op := .persist [116] [4] 6 (some mixedMsg) :: sampleOps

/-- Two entries are left, of which the filter keeps parts. -/
theorem store_refines_multiset_mixed :
    (∀ op ∈ mixedOps, op.NulFree) ∧ (mixedOps.filterMap Op.uuid).Nodup ∧
      Multiset.Rel (Returned onlyC) {⟨[116], 5, sampleMsg⟩, ⟨[116], 6, mixedMsg⟩}
        (((Lib.run (Op.step plainExternals) newStore mixedOps).getTxPvtRWSetByTxid
          [116] onlyC).2.drain plainExternals 2 : List _) := by
  have hnul : ∀ op ∈ mixedOps, op.NulFree := by decide
  have huuid : (mixedOps.filterMap Op.uuid).Nodup := by decide
  have hspec : Lib.run (specStep plainExternals) 0 mixedOps =
      {⟨[116], 5, sampleMsg⟩, ⟨[116], 6, mixedMsg⟩} := rfl
  refine ⟨hnul, huuid, ?_⟩
  refine ((store_refines_multiset_iff plainExternals mixedOps hnul huuid).2.2 [116] onlyC 2
    (by decide +kernel)).mpr fun e he _ => ?_
  rw [hspec, Multiset.insert_eq_cons, Multiset.mem_cons, Multiset.mem_singleton] at he
  rcases he with rfl | rfl <;>
  · refine Or.inr ⟨Option.some_ne_none _, fun ns configs hl => ?_⟩
    obtain rfl := eq_of_lookup_single hl
    decide

/-- A message without a write set is stored, and every filter but the nil one panics on it. -/
theorem scan_panics_withoutWriteSet :
    let ops : List Op := [.persist [116] [1] 5 (some ⟨none, ∅⟩)]
    Lib.run (specStep plainExternals) 0 ops = {⟨[116], 5, ⟨none, ∅⟩⟩} ∧
      ((Lib.run (Op.step plainExternals) newStore ops).getTxPvtRWSetByTxid [116] onlyC).2.drain
          plainExternals 1 =
        [.error (.panic "invalid memory address or nil pointer dereference")] :=
  ⟨rfl, by rfl⟩

/-- One write set at height 0: the store says it is empty. -/
theorem getMinTransientBlkHt_zero :
    let ops : List Op := [.persist [116] [1] 0 (some sampleMsg)]
    (Lib.run (Op.step plainExternals) newStore ops).getMinTransientBlkHt (.listed _) =
        .error errStoreEmpty ∧
      Lib.run (specStep plainExternals) 0 ops = {⟨[116], 0, sampleMsg⟩} :=
  ⟨by decide +kernel, rfl⟩

theorem getMinTransientBlkHt_sample :
    IsMin (Lib.run (specStep plainExternals) 0 sampleOps)
      ((Lib.run (Op.step plainExternals) newStore sampleOps).getMinTransientBlkHt (.listed _)) := by
  refine (getMinTransientBlkHt_iff plainExternals _ _ (by decide) (by decide)).mpr fun e he => ?_
  have hspec : Lib.run (specStep plainExternals) 0 sampleOps = {⟨[116], 5, sampleMsg⟩} := rfl
  rw [hspec, Multiset.mem_singleton] at he
  exact he ▸ by decide

end FabricPeerExt.Transientstore
