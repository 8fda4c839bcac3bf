/-
FabricPeerExt.Txn.RwSet — the read-write set of a simulated transaction, `rwsetutil.TxRwSet`,
without its reads.
-/
import FabricPeerExt.Collections.RwSets

namespace FabricPeerExt.Txn

open Lib
open PvtData (GoString)
open Collections (KVWrite)

/-- `kvrwset.KVMetadataWrite`. -/
structure KVMetadataWrite where
  key : GoString
  entries : List (GoString × Bytes)
  deriving DecidableEq

structure KVRWSet where
  writes : List KVWrite
  metadataWrites : List KVMetadataWrite
  deriving DecidableEq

structure KVWriteHash where
  keyHash : Bytes
  isDelete : Bool
  valueHash : Bytes
  deriving DecidableEq

structure KVMetadataWriteHash where
  keyHash : Bytes
  entries : List (GoString × Bytes)
  deriving DecidableEq

/-- `kvrwset.HashedRWSet`. -/
structure HashedRWSet where
  hashedWrites : List KVWriteHash
  metadataWrites : List KVMetadataWriteHash
  deriving DecidableEq

structure CollHashedRwSet where
  collectionName : GoString
  hashedRwSet : Option HashedRWSet
  deriving DecidableEq

/-- `rwsetutil.NsRwSet`. -/
structure NsRwSet where
  nameSpace : GoString
  kvRwSet : Option KVRWSet
  collHashedRwSets : List CollHashedRwSet
  deriving DecidableEq

abbrev TxRwSet := List NsRwSet

def CollHashedRwSet.writes (c : CollHashedRwSet) : Bool :=
  c.hashedRwSet.any fun set => !set.hashedWrites.isEmpty

def CollHashedRwSet.metadataWrites (c : CollHashedRwSet) : Bool :=
  c.hashedRwSet.any fun set => !set.metadataWrites.isEmpty

def NsRwSet.writes (ns : NsRwSet) : Bool := ns.kvRwSet.any fun set => !set.writes.isEmpty

def NsRwSet.metadataWrites (ns : NsRwSet) : Bool :=
  ns.kvRwSet.any fun set => !set.metadataWrites.isEmpty

def NsRwSet.Modified (ns : NsRwSet) : Prop :=
  (ns.writes || ns.metadataWrites) = true ∨
    ∃ c ∈ ns.collHashedRwSets, (c.writes || c.metadataWrites) = true

end FabricPeerExt.Txn
