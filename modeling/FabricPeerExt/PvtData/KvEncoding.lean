/-
FabricPeerExt.PvtData.KvEncoding — `common/kv_encoding.go`: the keys of the two databases of the
private-data store.

Namespaces and collections are written as they are, with a NUL byte behind the first. A slice
expression that is out of range is `Err.panic`.
-/
import FabricPeerExt.PvtData.Types
import FabricPeerExt.Common.Version
import FabricPeerExt.Lib.BigEndian

namespace FabricPeerExt.PvtData

open Lib
open Common

def pendingCommitKey : Bytes := [0]
def pvtDataKeyPrefix : UInt8 := 2
def expiryKeyPrefix : UInt8 := 3
def elgPrioritizedMissingDataGroup : UInt8 := 4
def inelgMissingDataGroup : UInt8 := 5
def collElgKeyPrefix : UInt8 := 6
def lastUpdatedOldBlocksKey : Bytes := [7]
def elgDeprioritizedMissingDataGroup : UInt8 := 8
def nilByte : UInt8 := 0

/-- A name the encodings can hold: no byte of it is the separator. -/
def NulFree (s : GoString) : Prop := nilByte ∉ s

instance (s : GoString) : Decidable (NulFree s) := inferInstanceAs (Decidable (nilByte ∉ s))

/-! ## Splitting at NUL bytes -/

/-- The bytes before and after the first NUL byte (`bytes.IndexByte` and the two
slices around it). -/
def cutNul : Bytes → Option (Bytes × Bytes)
  | [] => none
  | b :: bs =>
      if b = nilByte then some ([], bs)
      else (cutNul bs).map fun p => (b :: p.1, p.2)

/-- `bytes.SplitN(bs, []byte{nilByte}, n)` for a positive `n`; `bytes.Split` is
the case where `n` is not reached. -/
def splitN : Nat → Bytes → List Bytes
  | 0, _ => []
  | 1, bs => [bs]
  | n + 2, bs => match cutNul bs with
    | none => [bs]
    | some (p, rest) => p :: splitN (n + 1) rest

/-! ## The reverse-order number encoding -/

section
variable (x : Externals)

/-- `encodeReverseOrderVarUint64`: the number is subtracted from MaxUint64, and
the leading 0xff bytes of the result are replaced by their number. -/
def encodeReverseOrderVarUint64 (number : UInt64) : Bytes :=
  let bytes := beBytes 8 (maxUint64 - number).toNat
  let numFFBytes := leadCount 255 bytes
  (x.varint.encode (UInt64.ofNat numFFBytes)).headD 0 :: bytes.drop numFFBytes

/-- `decodeReverseOrderVarUint64`. -/
def decodeReverseOrderVarUint64 (bytes : Bytes) : Except Err (UInt64 × Nat) :=
  let numFFBytes := match x.varint.decode bytes with
    | .ok (s, _) => s.toNat
    | .error _ => 0
  let realBytesNum := 8 - numFFBytes
  if 8 < numFFBytes ∨ bytes.length < realBytesNum + 1 then
    .error (.panic "slice bounds out of range")
  else
    let decodedBytes := List.replicate numFFBytes 255 ++ (bytes.drop 1).take realBytesNum
    .ok (maxUint64 - UInt64.ofNat (ofBe decodedBytes), realBytesNum + 1)

/-! ## Keys of the documents -/

/-- `EncodeDataKey`. -/
def encodeDataKey (key : DataKey) : Bytes :=
  pvtDataKeyPrefix :: ((Height.mk key.blkNum key.txNum).toBytes x.orderPreservingVarUint64
    ++ (key.ns ++ nilByte :: key.coll))

/-- `DecodeDatakey`. -/
def decodeDatakey (datakeyBytes : Bytes) : Except Err DataKey :=
  match datakeyBytes with
  | [] => .error (.panic "slice bounds out of range")
  | _ :: tail => match Height.newHeightFromBytes x.orderPreservingVarUint64 tail with
    | .error e => .error (.plain e)
    | .ok (v, n) => match cutNul (tail.drop n) with
      | none => .error (.panic "slice bounds out of range")
      | some (ns, coll) => .ok ⟨⟨ns, coll, v.blockNum⟩, v.txNum⟩

/-- `EncodeExpiryKey`. -/
def encodeExpiryKey (expiryKey : ExpiryKey) : Bytes :=
  expiryKeyPrefix ::
    (Height.mk expiryKey.expiringBlk expiryKey.committingBlk).toBytes x.orderPreservingVarUint64

/-- `DecodeExpiryKey`. -/
def decodeExpiryKey (expiryKeyBytes : Bytes) : Except Err ExpiryKey :=
  match expiryKeyBytes with
  | [] => .error (.panic "slice bounds out of range")
  | _ :: tail => match Height.newHeightFromBytes x.orderPreservingVarUint64 tail with
    | .error e => .error (.plain e)
    | .ok (height, _) => .ok ⟨height.blockNum, height.txNum⟩

/-! ## Keys of the missing-data index -/

/-- The shape the two eligible groups share: most recent block first. -/
def encodeElgMissingDataKey (group : UInt8) (key : MissingDataKey) : Bytes :=
  group :: (encodeReverseOrderVarUint64 x key.blkNum ++ (key.ns ++ nilByte :: key.coll))

/-- `EncodeElgPrioMissingDataKey`. -/
def encodeElgPrioMissingDataKey : MissingDataKey → Bytes :=
  encodeElgMissingDataKey x elgPrioritizedMissingDataGroup

/-- `EncodeElgDeprioMissingDataKey`. -/
def encodeElgDeprioMissingDataKey : MissingDataKey → Bytes :=
  encodeElgMissingDataKey x elgDeprioritizedMissingDataGroup

/-- `DecodeElgMissingDataKey`. -/
def decodeElgMissingDataKey (keyBytes : Bytes) : Except Err MissingDataKey :=
  match decodeReverseOrderVarUint64 x (keyBytes.drop 1) with
  | .error e => .error e
  | .ok (blkNum, numBytesConsumed) =>
    let names := keyBytes.drop (numBytesConsumed + 1)
    match splitN (names.length + 1) names with
    | ns :: coll :: _ => .ok ⟨ns, coll, blkNum⟩
    | _ => .error (.panic "index out of range")

/-- `EncodeInelgMissingDataKey`: namespace and collection first, so that the
entries of a collection are next to each other. -/
def encodeInelgMissingDataKey (key : MissingDataKey) : Bytes :=
  inelgMissingDataGroup :: (key.ns ++ nilByte :: (key.coll ++ nilByte ::
    encodeReverseOrderVarUint64 x key.blkNum))

/-- `DecodeInelgMissingDataKey`: at most three pieces, since the encoded block
number may contain NUL bytes. -/
def decodeInelgMissingDataKey (keyBytes : Bytes) : Except Err MissingDataKey :=
  match splitN 3 (keyBytes.drop 1) with
  | [ns, coll, blk] => match decodeReverseOrderVarUint64 x blk with
    | .error e => .error e
    | .ok (blkNum, _) => .ok ⟨ns, coll, blkNum⟩
  | _ => .error (.panic "index out of range")

/-- `encodeCollElgKey`. -/
def encodeCollElgKey (blkNum : UInt64) : Bytes :=
  collElgKeyPrefix :: encodeReverseOrderVarUint64 x blkNum

/-- `decodeCollElgKey`. -/
def decodeCollElgKey (b : Bytes) : Except Err UInt64 :=
  match decodeReverseOrderVarUint64 x (b.drop 1) with
  | .error e => .error e
  | .ok (blkNum, _) => .ok blkNum

/-- `createRangeScanKeysForInelgMissingData`. -/
def createRangeScanKeysForInelgMissingData (maxBlkNum : UInt64) (ns coll : GoString) :
    Bytes × Bytes :=
  (encodeInelgMissingDataKey x ⟨ns, coll, maxBlkNum⟩, encodeInelgMissingDataKey x ⟨ns, coll, 0⟩)

/-- `createRangeScanKeysForCollElg`. -/
def createRangeScanKeysForCollElg : Bytes × Bytes :=
  (encodeCollElgKey x maxUint64, encodeCollElgKey x 0)

/-! ## Values -/

/-- `EncodeDataValue`. -/
def encodeDataValue (v : CollectionPvtReadWriteSet) : Except Err Bytes :=
  liftErr (x.collPvtRwset.marshal v)

/-- `DecodeDataValue`. -/
def decodeDataValue (bs : Bytes) : Except Err CollectionPvtReadWriteSet :=
  liftErr (x.collPvtRwset.unmarshal bs)

/-- `EncodeExpiryValue`. -/
def encodeExpiryValue (v : ExpiryData) : Except Err Bytes := liftErr (x.expiryData.marshal v)

/-- `DecodeExpiryValue`. -/
def decodeExpiryValue (bs : Bytes) : Except Err ExpiryData := liftErr (x.expiryData.unmarshal bs)

/-- `EncodeMissingDataValue`. -/
def encodeMissingDataValue (b : BitSet) : Except Err Bytes := liftErr (x.bitSet.marshal b)

/-- `DecodeMissingDataValue`. -/
def decodeMissingDataValue (bs : Bytes) : Except Err BitSet := liftErr (x.bitSet.unmarshal bs)

/-- `encodeCollElgVal`. -/
def encodeCollElgVal (m : CollElgInfo) : Except Err Bytes := liftErr (x.collElgInfo.marshal m)

/-- `decodeCollElgVal`. -/
def decodeCollElgVal (bs : Bytes) : Except Err CollElgInfo :=
  liftErr (x.collElgInfo.unmarshal bs)

end

end FabricPeerExt.PvtData
