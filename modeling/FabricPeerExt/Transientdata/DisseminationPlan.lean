/-
FabricPeerExt.Transientdata.DisseminationPlan — to whom an endorsing peer sends transient data,
`pkg/collections/transientdata/dissemination/disseminationplan.go`. `fuel` is that of
`ResolveEndorsers`.
-/
import FabricPeerExt.Collections.RwSets
import FabricPeerExt.Transientdata.Disseminator

namespace FabricPeerExt.Transientdata

open Lib
open PvtData (GoString Err CollectionPvtReadWriteSet liftErr wrapErr)
open Collections (KVWrite KVRWSet)
open Validation (Member PeerGroup)

/-- `dissemination.Plan`: the endpoint that `IsEligible` compares with, and the payload. The
other criteria and the rest of the message are the same for all endorsers. -/
structure Plan where
  endpoint : GoString
  rwSet : CollectionPvtReadWriteSet
  deriving DecidableEq

def Plan.isEligible (plan : Plan) (member : Member) : Bool := plan.endpoint = member.endpoint

def appendKey (m : GoMap GoString (List GoString)) (endpoint key : GoString) :
    GoMap GoString (List GoString) :=
  m.insert endpoint ((m.lookup endpoint).getD [] ++ [key])

def addToEndorsers (key : GoString) (m : GoMap GoString (List GoString)) (endorsers : PeerGroup) :
    GoMap GoString (List GoString) :=
  endorsers.foldl
    (fun m endorser => if endorser.isLocal then m else appendKey m endorser.endpoint key) m

/-- `newRWSetForKeys`. -/
def newRWSetForKeys (proto : Marshaler KVRWSet) (rwSet : CollectionPvtReadWriteSet)
    (keys : List GoString) : Except Err CollectionPvtReadWriteSet :=
  match liftErr (proto.unmarshal rwSet.rwset) with
  | .error e => .error e
  | .ok kvRWSet =>
    let kvWrites := kvRWSet.writes.filter fun kvWrite => keys.contains kvWrite.key
    match liftErr (proto.marshal ⟨kvWrites⟩) with
    | .error e => .error e
    | .ok rwSetBytes => .ok ⟨rwSet.collectionName, rwSetBytes⟩

/-- `computeDisseminationPlanForEndorser`. -/
def planForEndorser (proto : Marshaler KVRWSet) (rwSet : CollectionPvtReadWriteSet)
    (entry : GoString × List GoString) : Except Err Plan :=
  match newRWSetForKeys proto rwSet entry.2 with
  | .error e => .error e
  | .ok rwSetForKeys => .ok ⟨entry.1, rwSetForKeys⟩

namespace Disseminator

variable (d : Disseminator) (fuel : Nat)

/-- `getKeysByEndorser`. -/
def getKeysByEndorser (m : GoMap GoString (List GoString)) :
    List KVWrite → Option (Except Err (GoMap GoString (List GoString)))
  | [] => some (.ok m)
  | kvWrite :: kvWrites =>
    if kvWrite.isDelete then getKeysByEndorser m kvWrites else
      match d.resolveEndorsers fuel kvWrite.key with
      | none => none
      | some (.error e) =>
        some (.error (.wrap "error resolving endorsers for transient data" e))
      | some (.ok endorsersForKey) =>
        getKeysByEndorser (addToEndorsers kvWrite.key m endorsersForKey) kvWrites

/-- `ComputeDisseminationPlan`, which handles every collection that it is called for. -/
def computeDisseminationPlan (proto : Marshaler KVRWSet) (rwSet : CollectionPvtReadWriteSet) :
    Option (Except Err (List Plan)) :=
  match wrapErr "error unmarshalling KV read/write set for transient data"
      (liftErr (proto.unmarshal rwSet.rwset)) with
  | .error e => some (.error e)
  | .ok kvRwSet =>
    match d.getKeysByEndorser fuel ∅ kvRwSet.writes with
    | none => none
    | some (.error e) => some (.error e)
    | some (.ok keysByEndorser) =>
      some (collect (planForEndorser proto rwSet) keysByEndorser.toList)

end Disseminator

end FabricPeerExt.Transientdata
