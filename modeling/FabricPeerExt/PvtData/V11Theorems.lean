/-
FabricPeerExt.PvtData.V11Theorems — are documents in the v1.1 format read back? `V11DecodeKV`
takes the hexadecimal text of a key for the key itself, and fails (`assemble_v11_iff`).
-/
import FabricPeerExt.PvtData.Assembler
import FabricPeerExt.PvtData.Instance

namespace FabricPeerExt.PvtData

open Lib Common

variable {x : Externals}

def v11DataKey (x : Externals) (blockNum txNum : UInt64) : Bytes :=
  pvtDataKeyPrefix :: (Height.mk blockNum txNum).toBytes x.orderPreservingVarUint64

/-- The entries of a document are the write sets of some transactions, here in the order of
their numbers. -/
structure V11Document (x : Externals) (blockNum : UInt64)
    (txs : List (UInt64 × TxPvtReadWriteSet)) (results : GoMap GoString Bytes) : Prop where
  increasing : txs.Pairwise fun p q => p.1 < q.1
  entries : ∀ key bytes, results.lookup key = some bytes ↔ ∃ p ∈ txs,
    key = hexEncode (v11DataKey x blockNum p.1) ∧ x.txPvtRwset.marshal p.2 = .ok bytes
  stored : ∀ p ∈ txs, ∃ bytes, x.txPvtRwset.marshal p.2 = .ok bytes

def v11Expected (filter : PvtNsCollFilter) (txs : List (UInt64 × TxPvtReadWriteSet)) :
    List RetrievedTxPvtData :=
  txs.map fun p => ⟨p.1, v11TrimPvtWSet p.2 filter⟩

/-- A number has at most eight bytes, and its decoder fails where the size in front of them
says more. -/
def SizeChecked (c : OrderPreserving) : Prop :=
  ∀ size rest, 8 < size → ∃ e, c.decode (size :: rest) = .error e

theorem sizeChecked_trimmedBe : SizeChecked trimmedBe := by
  intro size rest h
  exact ⟨_, if_pos (.inl (UInt8.lt_iff_toNat_lt.mp h))⟩

theorem v11Format_v11DataKey (blockNum txNum : UInt64) :
    v11Format x (v11DataKey x blockNum txNum) = .ok true := by
  have hread := Height.newHeightFromBytes_toBytes x.orderPreservingVarUint64
    ⟨blockNum, txNum⟩ []
  rw [List.append_nil] at hread
  simp [v11Format, v11DataKey, hread]

/-- The text of a key is no key. -/
theorem v11DecodeKV_hexEncode (hsize : SizeChecked x.orderPreservingVarUint64)
    (blockNum txNum : UInt64) (v : Bytes) (filter : PvtNsCollFilter) :
    ∃ e, v11DecodeKV x (hexEncode (v11DataKey x blockNum txNum)) v filter = .error e := by
  obtain ⟨e, he⟩ := hsize (hexDigit 2) (hexEncode ((Height.mk blockNum txNum).toBytes
    x.orderPreservingVarUint64)) (by decide)
  have htext : hexEncode (v11DataKey x blockNum txNum) = hexDigit 0 :: hexDigit 2 ::
      hexEncode ((Height.mk blockNum txNum).toBytes x.orderPreservingVarUint64) := rfl
  refine ⟨.plain e, ?_⟩
  rw [htext, v11DecodeKV, Height.newHeightFromBytes, he]

section
variable {blockNum : UInt64} {txs : List (UInt64 × TxPvtReadWriteSet)}
  {results : GoMap GoString Bytes}

theorem V11Document.exists_of_mem (h : V11Document x blockNum txs results) {key : GoString}
    (hkey : key ∈ results.keys) : ∃ p ∈ txs, key = hexEncode (v11DataKey x blockNum p.1) := by
  rw [← AList.mem_keys, ← AList.lookup_isSome] at hkey
  obtain ⟨bytes, hbytes⟩ := Option.isSome_iff_exists.mp hkey
  obtain ⟨p, hp, hkey, _⟩ := (h.entries key bytes).mp hbytes
  exact ⟨p, hp, hkey⟩

/-- A document with an entry is not read. -/
theorem V11Document.assemble_error (h : V11Document x blockNum txs results)
    (hsize : SizeChecked x.orderPreservingVarUint64) (hne : txs ≠ []) (btlPolicy : BtlPolicy)
    (filter : PvtNsCollFilter) (last : UInt64) (out : List RetrievedTxPvtData) :
    assemble x btlPolicy filter last results blockNum ≠ .ok out := by
  obtain ⟨p, hp⟩ := List.exists_mem_of_ne_nil txs hne
  obtain ⟨bytes, hbytes⟩ := h.stored p hp
  have hlookup := (h.entries _ bytes).mpr ⟨p, hp, rfl, hbytes⟩
  -- whatever key comes first, it has the v1.1 format
  have hloop : assemble x btlPolicy filter last results blockNum =
      v11RetrievePvtdata x results filter := by
    rw [assemble]
    cases hkeys : results.keys.insertionSort (fun a b => a ≤ b) with
    | nil =>
      have hin : hexEncode (v11DataKey x blockNum p.1) ∈ results.keys :=
        AList.mem_keys.mp (AList.lookup_isSome.mp (by rw [hlookup]; rfl))
      rw [← (List.perm_insertionSort (fun a b => a ≤ b) results.keys).mem_iff, hkeys] at hin
      cases hin
    | cons key keys =>
      have hin : key ∈ results.keys := by
        rw [← (List.perm_insertionSort (fun a b => a ≤ b) results.keys).mem_iff, hkeys]
        exact List.mem_cons_self
      obtain ⟨q, _, rfl⟩ := h.exists_of_mem hin
      simp only [assembleLoop, hexDecode_hexEncode, v11Format_v11DataKey]
  rw [hloop]
  intro hok
  obtain ⟨r, hr⟩ := collect_ok_of_mem hok (a := (_, bytes)) (GoMap.mem_toList.mpr hlookup)
  obtain ⟨e, he⟩ := v11DecodeKV_hexEncode hsize blockNum p.1 bytes filter
  rw [he] at hr
  cases hr

/-- A document in the v1.1 format is read back exactly if it has no entry. -/
theorem assemble_v11_iff (h : V11Document x blockNum txs results)
    (hsize : SizeChecked x.orderPreservingVarUint64) (btlPolicy : BtlPolicy)
    (filter : PvtNsCollFilter) (last : UInt64) :
    assemble x btlPolicy filter last results blockNum = .ok (v11Expected filter txs) ↔
      txs = [] := by
  constructor
  · intro hok
    by_contra hne
    exact h.assemble_error hsize hne btlPolicy filter last _ hok
  · rintro rfl
    have hkeys : results.keys = [] :=
      List.eq_nil_iff_forall_not_mem.mpr fun key hkey => by
        obtain ⟨p, hp, _⟩ := h.exists_of_mem hkey
        cases hp
    rw [assemble, hkeys]
    rfl

end

def v11Results : GoMap GoString Bytes :=
  (∅ : GoMap GoString Bytes).insert (hexEncode (v11DataKey plainExternals 1 0))
    (txPvtRwsetCodec.encode ⟨0, []⟩)

theorem v11Document_v11Results : V11Document plainExternals 1 [(0, ⟨0, []⟩)] v11Results where
  increasing := List.pairwise_singleton _ _
  entries := by
    intro key bytes
    rw [v11Results, GoMap.lookup_insert_eq]
    split
    · next hkey => simp [hkey, plainExternals, SelfDelimiting.toMarshaler]
    · next hkey => simp [hkey]
  stored := by simp [plainExternals, SelfDelimiting.toMarshaler]

theorem assemble_v11_iff_oneEntry :
    ¬ assemble plainExternals (lifetimePolicy fun _ _ => 0) none 1 v11Results 1 =
      .ok (v11Expected none [(0, ⟨0, []⟩)]) := fun h =>
  absurd ((assemble_v11_iff v11Document_v11Results sizeChecked_trimmedBe _ none 1).mp h)
    (List.cons_ne_nil _ _)

/-- A document with one entry. -/
theorem v11_not_read_back :
    assemble plainExternals (lifetimePolicy fun _ _ => 0) none 1 v11Results 1 =
      .error (.plain "decoded size out of range") := by
  decide +kernel

end FabricPeerExt.PvtData
