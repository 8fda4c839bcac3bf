/-
FabricPeerExt.PvtData.Instance — the parameters of the store, once concretely: `plainExternals`,
and the block-to-live policy of Fabric (`lifetimePolicy`).
-/
import FabricPeerExt.Lib.CodecInstances
import FabricPeerExt.PvtData.Types

namespace FabricPeerExt.PvtData

open Lib SelfDelimiting

def bytesCodec : SelfDelimiting Bytes := listOf byte

def numberCodec : SelfDelimiting UInt64 := trimmedBe.toSelfDelimiting

def boolCodec : SelfDelimiting Bool :=
  byte.image (fun b => if b then 1 else 0) (fun n => some (n == 1)) (by decide)

def collPvtRwsetCodec : SelfDelimiting CollectionPvtReadWriteSet :=
  (pair bytesCodec bytesCodec).image (fun c => (c.collectionName, c.rwset))
    (fun p => some ⟨p.1, p.2⟩) (fun _ => rfl)

def nsPvtRwsetCodec : SelfDelimiting NsPvtReadWriteSet :=
  (pair bytesCodec (listOf collPvtRwsetCodec)).image
    (fun n => (n.namespaceName, n.collectionPvtRwset)) (fun p => some ⟨p.1, p.2⟩) (fun _ => rfl)

def txPvtRwsetCodec : SelfDelimiting TxPvtReadWriteSet :=
  (pair numberCodec (listOf nsPvtRwsetCodec)).image
    (fun t => (t.dataModel.toUInt64, t.nsPvtRwset))
    (fun p => some ⟨p.1.toUInt32, p.2⟩) (fun t => by simp)

def collectionsCodec : SelfDelimiting Collections :=
  (pair (mapOf bytesCodec (listOf numberCodec)) (mapOf bytesCodec boolCodec)).image
    (fun c => (c.map, c.missingDataMap)) (fun p => some ⟨p.1, p.2⟩) (fun _ => rfl)

def expiryDataCodec : SelfDelimiting ExpiryData :=
  (mapOf bytesCodec collectionsCodec).image ExpiryData.map (fun m => some ⟨m⟩) (fun _ => rfl)

def bitSetCodec : SelfDelimiting BitSet :=
  tally.image BitSet.bits (fun n => some ⟨n⟩) (fun _ => rfl)

def plainExternals : Externals where
  orderPreservingVarUint64 := trimmedBe
  varint := base128
  collPvtRwset := collPvtRwsetCodec.toMarshaler
  expiryData := expiryDataCodec.toMarshaler
  bitSet := bitSetCodec.toMarshaler
  collElgInfo := (mapOf bytesCodec (listOf bytesCodec)).toMarshaler
  txPvtRwset := txPvtRwsetCodec.toMarshaler
  pendingPvtData := fun _ => .ok []

/-- The policy with the given block-to-live numbers: data lives that many blocks
after its own, and for ever if the number is zero or the sum overflows. -/
def lifetimePolicy (btl : GoString → GoString → UInt64) : BtlPolicy where
  getExpiringBlock ns coll b :=
    .ok (if btl ns coll = 0 ∨ b + btl ns coll + 1 ≤ b then maxUint64 else b + btl ns coll + 1)
  lt_of_getExpiringBlock := by
    intro ns coll b e h hne
    rw [← Except.ok.inj h] at hne ⊢
    split at hne
    · exact absurd rfl hne
    · rename_i hc
      rw [if_neg hc]
      exact UInt64.not_le.mp fun hle => hc (.inr hle)

def plainConf : Conf where
  committer := true
  purgeInterval := 1
  purgeInterval_ne := by decide
  maxBatchSize := 10
  findLimit := 25

end FabricPeerExt.PvtData
