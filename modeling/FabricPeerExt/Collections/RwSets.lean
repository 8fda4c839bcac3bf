/-
FabricPeerExt.Collections.RwSets — the write sets of collections (`rwsetutil`) and the packages of
collection configurations that the stores of `pkg/collections` read.
-/
import FabricPeerExt.PvtData.Types
import FabricPeerExt.Lib.Run

namespace FabricPeerExt.Collections

open Lib
open PvtData (GoString Err CollectionPvtReadWriteSet NsPvtReadWriteSet liftErr)

/-! ## Write sets -/

/-- `kvrwset.KVWrite`. -/
structure KVWrite where
  key : GoString
  isDelete : Bool
  value : Bytes
  deriving DecidableEq, Repr

/-- `kvrwset.KVRWSet`, its writes. -/
structure KVRWSet where
  writes : List KVWrite
  deriving DecidableEq, Repr

/-- `rwsetutil.CollPvtRwSet`. -/
structure CollPvtRwSet where
  collectionName : GoString
  kvRwSet : KVRWSet

/-- `rwsetutil.NsPvtRwSet`. -/
structure NsPvtRwSet where
  nameSpace : GoString
  collPvtRwSets : List CollPvtRwSet

def collPvtRwSetFromProtoMsg (proto : Marshaler KVRWSet) (coll : CollectionPvtReadWriteSet) :
    Except Err CollPvtRwSet :=
  match liftErr (proto.unmarshal coll.rwset) with
  | .error e => .error e
  | .ok kvRwSet => .ok ⟨coll.collectionName, kvRwSet⟩

def txPvtRwSetFromProtoMsg (proto : Marshaler KVRWSet) (nss : List NsPvtReadWriteSet) :
    Except Err (List NsPvtRwSet) :=
  collect (fun ns => match collect (collPvtRwSetFromProtoMsg proto) ns.collectionPvtRwset with
    | .error e => .error e
    | .ok colls => .ok ⟨ns.namespaceName, colls⟩) nss

/-! ## Configurations -/

/-- `pb.CollectionType`. -/
inductive CollectionType where
  | colUnknown
  | colPrivate
  | colTransient
  | colOffLedger
  | colDcas
  deriving DecidableEq, Repr

/-- `pb.StaticCollectionConfig`. What the code reads of it is what libraries make of it:
`timeToLive` is the result of `time.ParseDuration`, in nanoseconds, and `policy` that of the
`Setup` of a `privdata.SimpleCollection`, a policy of type `π`. -/
structure StaticCollectionConfig (π : Type) where
  name : GoString
  type : CollectionType
  timeToLive : Except String Int
  policy : Except String π

/-- The `pb.CollectionConfigPackage`s by namespace; `none` is a configuration that is not a
static one. -/
abbrev CollectionConfigs (π : Type) := GoMap GoString (List (Option (StaticCollectionConfig π)))

/-- `getCollectionConfig` of the stores: the first configuration of that name whose type is
one of the store's. -/
def getCollectionConfig {π : Type} (types : List CollectionType) (configs : CollectionConfigs π)
    (ns coll : GoString) : Option (StaticCollectionConfig π) :=
  match configs.lookup ns with
  | none => none
  | some configs =>
    (configs.filterMap id).find? fun config => types.contains config.type && config.name = coll

end FabricPeerExt.Collections
