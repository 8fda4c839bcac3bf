/-
FabricPeerExt.PvtData.Types — the data model of `pkg/pvtdatastorage`: the types of
`common/store.go`, the messages of `rwset` and the types of Fabric's `ledger` package. What the
store calls and does not define is in `Externals`, `BtlPolicy` and `Conf`.
-/
import FabricPeerExt.Lib.Codec
import FabricPeerExt.Lib.DocStore

namespace FabricPeerExt.PvtData

open Lib

abbrev GoString := Bytes

/-! ## Errors -/

/-- The errors of the store: the two typed ones of Fabric's `pvtdatastorage`,
plain ones, wrapped ones, and a panic. -/
inductive Err where
  | illegalCall (msg : String)
  | outOfRange (msg : String)
  | notFoundInIndex
  | plain (msg : String)
  | wrap (msg : String) (cause : Err)
  | panic (msg : String)
  deriving DecidableEq, Repr

def liftErr {α : Type} : Except String α → Except Err α
  | .ok a => .ok a
  | .error e => .error (.plain e)

def wrapErr {α : Type} (msg : String) : Except Err α → Except Err α
  | .ok a => .ok a
  | .error e => .error (.wrap msg e)

@[simp] theorem liftErr_ok {α : Type} {r : Except String α} {a : α} :
    liftErr r = .ok a ↔ r = .ok a := by
  cases r <;> simp [liftErr]

@[simp] theorem wrapErr_ok {α : Type} {msg : String} {r : Except Err α} {a : α} :
    wrapErr msg r = .ok a ↔ r = .ok a := by
  cases r <;> simp [wrapErr]

/-! ## Write sets and missing-data reports -/

/-- `rwset.CollectionPvtReadWriteSet`. -/
structure CollectionPvtReadWriteSet where
  collectionName : GoString
  rwset : Bytes
  deriving DecidableEq, Repr

/-- `rwset.NsPvtReadWriteSet`. -/
structure NsPvtReadWriteSet where
  namespaceName : GoString
  collectionPvtRwset : List CollectionPvtReadWriteSet
  deriving DecidableEq, Repr

/-- `rwset.TxPvtReadWriteSet`. -/
structure TxPvtReadWriteSet where
  dataModel : UInt32
  nsPvtRwset : List NsPvtReadWriteSet
  deriving DecidableEq, Repr

/-- `ledger.TxPvtData` as an argument. The store dereferences the write set, so a
nil one is not part of the type. -/
structure TxPvtData where
  seqInBlock : UInt64
  writeSet : TxPvtReadWriteSet
  deriving DecidableEq, Repr

/-- `ledger.TxPvtData` as a result, where the write set may be nil. -/
structure RetrievedTxPvtData where
  seqInBlock : UInt64
  writeSet : Option TxPvtReadWriteSet
  deriving DecidableEq, Repr

structure MissingPvtData where
  namespaceName : GoString
  collection : GoString
  isEligible : Bool
  deriving DecidableEq, Repr

abbrev TxMissingPvtDataMap := GoMap UInt64 (List MissingPvtData)

structure MissingCollectionPvtDataInfo where
  namespaceName : GoString
  collection : GoString
  deriving DecidableEq, Repr

abbrev MissingBlockPvtdataInfo := GoMap UInt64 (List MissingCollectionPvtDataInfo)

abbrev MissingPvtDataInfo := GoMap UInt64 MissingBlockPvtdataInfo

/-- `ledger.PvtNsCollFilter`, through its `Has`; `none` is the nil filter. -/
abbrev PvtNsCollFilter := Option (GoString → GoString → Bool)

/-! ## Bit sets -/

/-- `bitset.BitSet`: bit `i` says whether transaction `i` is in the set. -/
structure BitSet where
  bits : Nat
  deriving DecidableEq, Repr

namespace BitSet

def empty : BitSet := ⟨0⟩

def test (b : BitSet) (i : UInt64) : Bool := b.bits.testBit i.toNat

def set (b : BitSet) (i : UInt64) : BitSet := ⟨b.bits ||| 2 ^ i.toNat⟩

def clear (b : BitSet) (i : UInt64) : BitSet :=
  ⟨if b.test i then b.bits ^^^ 2 ^ i.toNat else b.bits⟩

def none (b : BitSet) : Bool := b.bits = 0

@[simp] theorem test_empty (i : UInt64) : empty.test i = false := by simp [test, empty]

theorem testBit_two_pow_toNat (i j : UInt64) :
    (2 ^ i.toNat).testBit j.toNat = decide (j = i) := by
  rw [Nat.testBit_two_pow]
  by_cases h : j = i
  · simp [h]
  · have hne : i.toNat ≠ j.toNat := fun he => h (UInt64.toNat_inj.mp he.symm)
    simp [h, hne]

@[simp] theorem test_set (b : BitSet) (i j : UInt64) :
    (b.set i).test j = (b.test j || decide (j = i)) := by
  rw [test, set, Nat.testBit_or, testBit_two_pow_toNat, test]

@[simp] theorem test_clear (b : BitSet) (i j : UInt64) :
    (b.clear i).test j = (b.test j && !decide (j = i)) := by
  unfold clear
  by_cases h : b.test i = true
  · rw [if_pos h, test, Nat.testBit_xor, testBit_two_pow_toNat, test]
    by_cases hj : j = i
    · subst hj; rw [test] at h; simp [h]
    · simp [hj]
  · rw [if_neg h]
    by_cases hj : j = i
    · subst hj; simp [test] at h ⊢; exact h
    · simp [test, hj]

/-- A set without members tests false everywhere. -/
theorem test_of_none {b : BitSet} (h : b.none = true) (i : UInt64) : b.test i = false := by
  have hb : b.bits = 0 := by simpa [none] using h
  rw [test, hb, Nat.zero_testBit]

theorem none_eq_false_of_test {b : BitSet} {i : UInt64} (h : b.test i = true) :
    b.none = false := by
  cases hn : b.none with
  | false => rfl
  | true => rw [test_of_none hn] at h; cases h

end BitSet

/-! ## Keys and entries -/

/-- `NsCollBlk`. -/
structure NsCollBlk where
  ns : GoString
  coll : GoString
  blkNum : UInt64
  deriving DecidableEq, Repr

/-- `common.MissingDataKey` embeds `NsCollBlk` and nothing else. -/
abbrev MissingDataKey := NsCollBlk

/-- `DataKey`. -/
structure DataKey extends NsCollBlk where
  txNum : UInt64
  deriving DecidableEq, Repr

/-- `ExpiryKey`. -/
structure ExpiryKey where
  expiringBlk : UInt64
  committingBlk : UInt64
  deriving DecidableEq, Repr

/-- `DataEntry`. -/
structure DataEntry where
  key : DataKey
  value : CollectionPvtReadWriteSet
  deriving DecidableEq, Repr

/-- `pvtdatastorage.Collections`: transaction numbers of present data and a mark
for missing data, by collection. -/
structure Collections where
  map : GoMap GoString (List UInt64)
  missingDataMap : GoMap GoString Bool
  deriving DecidableEq

/-- `ExpiryData`. -/
structure ExpiryData where
  map : GoMap GoString Collections
  deriving DecidableEq

/-- `ExpiryEntry`. -/
structure ExpiryEntry where
  key : ExpiryKey
  value : ExpiryData
  deriving DecidableEq

/-- `StoreEntries`. -/
structure StoreEntries where
  dataEntries : List DataEntry
  expiryEntries : List ExpiryEntry
  elgMissingDataEntries : GoMap MissingDataKey BitSet
  inelgMissingDataEntries : GoMap MissingDataKey BitSet

abbrev CollElgInfo := GoMap GoString (List GoString)

/-! ## Documents -/

/-- The fields `data`, `expiry` and `expiringBlkNums` of a block's document. -/
structure BlockPvtData where
  data : GoMap GoString Bytes
  expiry : GoMap GoString Bytes
  expiringBlkNums : List GoString
  deriving DecidableEq

/-- The JSON value of a document of the database: that of a block, or the one
that holds the number of the last committed block as a decimal text. -/
inductive DocBody where
  | blockPvtData (d : BlockPvtData)
  | lastCommittedBlock (data : GoString)
  deriving DecidableEq

abbrev CouchDoc := Doc DocBody

/-- The database as a store of documents with revisions. -/
abbrev CouchDB := DocStore DocBody

/-- `pendingPvtData` of `cdbpvtdatastore/store_impl.go`; a missing map is nil. -/
structure PendingPvtData where
  pvtDataDoc : Option CouchDoc
  elgMissingDataEntries : GoMap GoString GoString
  inelgMissingDataEntries : GoMap GoString GoString
  batchPending : Bool
  deriving DecidableEq

/-! ## Externals -/

/-- The codecs that the store calls. -/
structure Externals where
  /-- `util.EncodeOrderPreservingVarUint64` and its decoder -/
  orderPreservingVarUint64 : OrderPreserving
  /-- `proto.EncodeVarint`, `proto.DecodeVarint` and the same methods of `proto.Buffer` -/
  varint : Varint
  /-- `proto.Marshal` and `proto.Unmarshal` of a collection's write set -/
  collPvtRwset : Marshaler CollectionPvtReadWriteSet
  /-- `proto.Marshal` and `proto.Unmarshal` of `ExpiryData` -/
  expiryData : Marshaler ExpiryData
  /-- `BitSet.MarshalBinary` and `BitSet.UnmarshalBinary` -/
  bitSet : Marshaler BitSet
  /-- `proto.Marshal` and `proto.Unmarshal` of `CollElgInfo` -/
  collElgInfo : Marshaler CollElgInfo
  /-- `proto.Marshal` and `proto.Unmarshal` of a transaction's write set -/
  txPvtRwset : Marshaler TxPvtReadWriteSet
  /-- `json.Marshal` of the pending private data, which nothing reads back -/
  pendingPvtData : PendingPvtData → Except String Bytes

def maxUint64 : UInt64 := 18446744073709551615

/-- `pvtdatapolicy.BTLPolicy`. The expiring block of data committed in block `b`
lies behind `b`; `math.MaxUint64` stands for data that never expires. -/
structure BtlPolicy where
  getExpiringBlock : GoString → GoString → UInt64 → Except Err UInt64
  lt_of_getExpiringBlock : ∀ {ns coll : GoString} {b e : UInt64},
    getExpiringBlock ns coll b = .ok e → e ≠ maxUint64 → b < e

/-- The configuration of the peer. -/
structure Conf where
  /-- `roles.IsCommitter()` -/
  committer : Bool
  purgeInterval : UInt64
  purgeInterval_ne : purgeInterval ≠ 0
  maxBatchSize : Nat
  /-- How many documents CouchDB returns for a query that sets no limit of its
  own; the rest of the matches is reachable through a bookmark only. -/
  findLimit : Nat

end FabricPeerExt.PvtData
