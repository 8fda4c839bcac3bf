/-
FabricPeerExt.Transientdata.Disseminator — which endorsers get transient data,
`pkg/collections/transientdata/dissemination/disseminator.go`. The loop of `chooseEndorsers` has
no bound in the source; here it has `fuel`.
-/
import FabricPeerExt.PvtData.Types
import FabricPeerExt.Validation.PeerGroups

namespace FabricPeerExt.Transientdata

open Lib
open PvtData (GoString Err)
open Validation (Member PeerGroup Discovery)

/-- `roles.EndorserRole`, the bytes of "endorser". -/
def endorserRole : Bytes := [101, 110, 100, 111, 114, 115, 101, 114]

/-- `PeerGroup.Contains`. -/
def contains (g : PeerGroup) (peer : Member) : Bool := g.any fun p => p.endpoint = peer.endpoint

/-- `privdata.CollectionAccessPolicy`, as far as it is used: the keys of the map of member
organisations, in the order in which an iteration delivers them. -/
structure AccessPolicy where
  memberOrgs : List GoString
  distinct : memberOrgs.Nodup
  maximumPeerCount : Int

/-- `Disseminator`, without the names in its texts. -/
structure Disseminator where
  discovery : Discovery
  policy : AccessPolicy

/-- `getHash32`: FNV-1a, which never fails. -/
def getHash32 (key : GoString) : UInt32 :=
  key.foldl (fun h c => (h ^^^ c.toUInt32) * 16777619) 2166136261

def isEndorserOf (mspIDs : List GoString) (m : Member) : Bool :=
  mspIDs.contains m.mspID && m.hasRole endorserRole

namespace Disseminator

variable (d : Disseminator)

/-- `Disseminator.getEndorsers`, and `getEndorsersExcept` with excluded peers. -/
def getEndorsers (mspIDs : List GoString) : PeerGroup :=
  d.discovery.getMembers (isEndorserOf mspIDs)

/-- `Disseminator.chooseOrgs`. -/
def chooseOrgs (h : UInt32) : List GoString :=
  let numOrgs := min d.policy.maximumPeerCount d.policy.memberOrgs.length
  let sortedOrgs := d.policy.memberOrgs.insertionSort fun org org' => org ≤ org'
  (List.range numOrgs.toNat).filterMap fun i => sortedOrgs[(h.toNat + i) % sortedOrgs.length]?

/-- `Disseminator.appendEndorsersFromOrgs`. -/
def appendEndorsersFromOrgs (endorsers : PeerGroup) (h : Nat) : List GoString → PeerGroup
  | [] => endorsers
  | org :: orgs =>
    if (endorsers.length : Int) = d.policy.maximumPeerCount then endorsers else
      let endorsersForOrg := PeerGroup.sort (d.getEndorsers [org])
      match endorsersForOrg[h % endorsersForOrg.length]? with
      | none => appendEndorsersFromOrgs endorsers h orgs
      | some endorserForOrg =>
        if contains endorsers endorserForOrg then appendEndorsersFromOrgs endorsers h orgs
        else appendEndorsersFromOrgs (endorsers ++ [endorserForOrg]) h orgs

def chooseLoop (orgs : List GoString) (allEndorsers : PeerGroup) :
    Nat → Nat → PeerGroup → Option PeerGroup
  | 0, _, _ => none
  | fuel + 1, h, endorsers =>
    if (endorsers.length : Int) < d.policy.maximumPeerCount then
      let endorsers' := d.appendEndorsersFromOrgs endorsers h orgs
      if allEndorsers.length ≤ endorsers'.length then some endorsers'
      else chooseLoop orgs allEndorsers fuel (h + 1) endorsers'
    else some endorsers

/-- `Disseminator.chooseEndorsers`, whose loop has fuel. -/
def chooseEndorsers (fuel : Nat) (h : UInt32) (orgs : List GoString) :
    Option (Except Err PeerGroup) :=
  let allEndorsers := d.getEndorsers orgs
  if allEndorsers = [] then some (.error (.plain "no endorsers for orgs"))
  else (d.chooseLoop orgs allEndorsers fuel h.toNat []).map .ok

/-- `Disseminator.ResolveEndorsers`. -/
def resolveEndorsers (fuel : Nat) (key : GoString) : Option (Except Err PeerGroup) :=
  let h := getHash32 key
  let orgs := d.chooseOrgs h
  if orgs = [] then some (.error (.plain "no orgs for key"))
  else d.chooseEndorsers fuel h orgs

def getEndorsersExcept (mspIDs : List GoString) (excludePeers : PeerGroup) : PeerGroup :=
  d.discovery.getMembers fun m => !contains excludePeers m && isEndorserOf mspIDs m

/-- `Disseminator.ResolveAllEndorsersInOrgsForKey`. -/
def resolveAllEndorsersInOrgsForKey (key : GoString) (excludePeers : PeerGroup) :
    Except Err PeerGroup :=
  let orgs := d.chooseOrgs (getHash32 key)
  if orgs = [] then .error (.plain "no orgs for key")
  else .ok (d.getEndorsersExcept orgs excludePeers)

/-- `Disseminator.ResolveAllEndorsers`. -/
def resolveAllEndorsers (excludePeers : PeerGroup) : Except Err PeerGroup :=
  let orgs := d.policy.memberOrgs
  if orgs = [] then .error (.plain "no orgs")
  else .ok (d.getEndorsersExcept orgs excludePeers)

end Disseminator

end FabricPeerExt.Transientdata
