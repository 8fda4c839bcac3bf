/-
FabricPeerExt.Blkstorage.Instance — the parameters of the block store, once concretely. An
envelope is its payload, a payload its channel header, and that the transaction ID.
-/
import FabricPeerExt.Blkstorage.BlockStore
import FabricPeerExt.PvtData.Instance

namespace FabricPeerExt.Blkstorage

open Lib SelfDelimiting
open PvtData (bytesCodec numberCodec)

def headerCodec : SelfDelimiting BlockHeader :=
  (pair numberCodec (pair bytesCodec bytesCodec)).image
    (fun h => (h.number, h.previousHash, h.dataHash)) (fun p => some ⟨p.1, p.2.1, p.2.2⟩)
    (fun _ => rfl)

def blockCodec : SelfDelimiting Block :=
  (pair headerCodec (pair (listOf bytesCodec) (listOf bytesCodec))).image
    (fun b => (b.header, b.data, b.metadata)) (fun p => some ⟨p.1, p.2.1, p.2.2⟩) (fun _ => rfl)

def plainExternals : Externals where
  varint := base128
  block := blockCodec.toMarshaler
  marshal_block_ne_nil := by
    intro b bs h
    rw [← Except.ok.inj h]
    exact List.cons_ne_nil _ _
  blockHeaderHash h :=
    (beBytes 8 h.number.toNat ++ (h.previousHash.take 2 ++ h.dataHash.take 2 ++
      List.replicate 24 0)).take 32
  length_blockHeaderHash := by
    intro h
    rw [List.length_take, List.length_append, length_beBytes]
    simp only [List.length_append, List.length_replicate]
    omega
  getEnvelopeFromBlock bs := .ok ⟨bs, []⟩
  extractPayload e := .ok ⟨some e.payload⟩
  unmarshalChannelHeader bs := .ok ⟨3, bs⟩

def plainBlock (number : UInt64) (previousHash : Bytes) (txIDs : List Bytes) (flags : Bytes) :
    Block :=
  ⟨⟨number, previousHash, []⟩, txIDs, [[], [], flags]⟩

def plainNext (b : Block) (txIDs : List Bytes) (flags : Bytes) : Block :=
  plainBlock (b.header.number + 1) (plainExternals.blockHeaderHash b.header) txIDs flags

end FabricPeerExt.Blkstorage
