/-
FabricPeerExt.Validation.PeerGroups — who validates which transaction: `peergroupselector.go`,
`peergroups.go` and `GetTxFilter` of `pkg/validation/validationpolicy`, with the members of
`pkg/common/discovery` and the roles of `pkg/roles`.

A peer sees the other members in the order of gossip discovery; `GetMembers` appends the peer
itself.
-/
import FabricPeerExt.Validation.TxResults

namespace FabricPeerExt.Validation

open Lib

/-! ## Roles -/

/-- `strings.ToLower`, as far as the result is ASCII: the capital letters, U+0130 and the
Kelvin sign U+212A. -/
def toLower : Bytes → Bytes
  | [] => []
  | 0xC4 :: 0xB0 :: s => 105 :: toLower s
  | 0xE2 :: 0x84 :: 0xAA :: s => 107 :: toLower s
  | c :: s => (if 65 ≤ c ∧ c ≤ 90 then c + 32 else c) :: toLower s

/-- `roles.CommitterRole`, the bytes of "committer". -/
def committerRole : Bytes := [99, 111, 109, 109, 105, 116, 116, 101, 114]

/-- `roles.ValidatorRole`, the bytes of "validator". -/
def validatorRole : Bytes := [118, 97, 108, 105, 100, 97, 116, 111, 114]

/-- `roles.FromStrings(..).Contains`: a peer without roles has all of them. -/
def rolesContain (roles : List Bytes) (role : Bytes) : Bool :=
  roles.isEmpty || (roles.map toLower).contains role

/-! ## Members -/

/-- `discovery.Member`. `roles` is `Properties.Roles`, `none` if there are no properties. -/
structure Member where
  endpoint : Bytes
  mspID : Bytes
  roles : Option (List Bytes)
  isLocal : Bool
  deriving DecidableEq, Repr

/-- `Member.HasRole`: a member without properties has no roles, and so has all of them. -/
def Member.hasRole (m : Member) (role : Bytes) : Bool := rolesContain (m.roles.getD []) role

abbrev PeerGroup := List Member

namespace PeerGroup

/-- `PeerGroup.ContainsLocal`. -/
def containsLocal (g : PeerGroup) : Bool := g.any Member.isLocal

/-- `PeerGroup.Sort`. -/
def sort (g : PeerGroup) : PeerGroup := g.insertionSort fun m m' => m.endpoint ≤ m'.endpoint

/-- `PeerGroup.String`: the endpoints between brackets, separated by a comma and a blank. -/
def string (g : PeerGroup) : Bytes :=
  [91] ++ List.intercalate [44, 32] (g.map Member.endpoint) ++ [93]

end PeerGroup

/-- What `GetMembers` reads: the peers of the channel whose organisation is known, in the
order of discovery, and the local peer. -/
structure Discovery where
  peers : List Member
  self : Member

/-- `Discovery.GetMembers`. -/
def Discovery.getMembers (disc : Discovery) (accept : Member → Bool) : List Member :=
  disc.peers.filter accept ++ [disc.self].filter accept

/-! ## Groups -/

/-- `policy`. -/
structure Policy where
  committerTransactionThreshold : Nat
  singlePeerTransactionThreshold : Nat

def acceptRole (org role : Bytes) (member : Member) : Bool :=
  member.mspID = org && match member.roles with
    | none => false
    | some roles => rolesContain roles role

/-- `peersWithRole`. -/
def peersWithRole (disc : Discovery) (role : Bytes) : PeerGroup :=
  disc.getMembers (acceptRole disc.self.mspID role)

/-- `peerGroupSelector`. -/
structure PeerGroupSelector where
  policy : Policy
  block : Block
  committers : PeerGroup
  validators : PeerGroup

/-- `newPeerGroupSelector`. -/
def newPeerGroupSelector (policy : Policy) (disc : Discovery) (block : Block) :
    PeerGroupSelector where
  policy := policy
  block := block
  committers := peersWithRole disc committerRole
  validators := peersWithRole disc validatorRole

/-- `peerGroups.sort`. -/
def sortGroups (groups : List PeerGroup) : List PeerGroup :=
  (groups.map PeerGroup.sort).insertionSort fun g g' => g.string ≤ g'.string

/-- `asPeerGroups`. -/
def asPeerGroups (peers : List Member) : List PeerGroup := peers.map fun v => [v]

namespace PeerGroupSelector

variable (s : PeerGroupSelector)

/-- `peerGroupSelector.selectCommitter`. -/
def selectCommitter : Option Member := s.committers.head?

/-- `peerGroupSelector.selectValidator`. -/
def selectValidator : Option Member :=
  match s.committers.find? fun peer => peer.hasRole validatorRole with
  | some peer => some peer
  | none => s.validators[s.block.number.toNat % s.validators.length]?

/-- The peer that validates the whole block, if one is selected: by the committer threshold,
else by the threshold for a single peer. -/
def selectByThreshold : Option Member :=
  let byCommitter :=
    if s.block.data.length < s.policy.committerTransactionThreshold then s.selectCommitter
    else none
  match byCommitter with
  | some peer => some peer
  | none =>
    if s.block.data.length < s.policy.singlePeerTransactionThreshold then s.selectValidator
    else none

/-- `peerGroupSelector.groups`. -/
def groups : Except String (List PeerGroup) :=
  match s.selectByThreshold with
  | some peer => .ok (sortGroups (asPeerGroups [peer]))
  | none =>
    if s.validators = [] then
      match s.selectCommitter with
      | none => .error s!"there are no validators or committers for block {s.block.number}"
      | some peer => .ok (sortGroups (asPeerGroups [peer]))
    else .ok (sortGroups (asPeerGroups s.validators))

end PeerGroupSelector

/-- The groups of `PolicyEvaluator.GetValidatingPeers`. -/
def groupsFor (policy : Policy) (disc : Discovery) (block : Block) :
    Except String (List PeerGroup) := (newPeerGroupSelector policy disc block).groups

/-- `GetTxFilter`: all transactions if the groups cannot be computed. -/
def getTxFilter (policy : Policy) (disc : Discovery) (block : Block) : TxFilter :=
  match groupsFor policy disc block with
  | .error _ => fun _ => true
  | .ok groups => fun txIdx =>
    match groups[txIdx % groups.length]? with
    | some peerGroupForTx => peerGroupForTx.containsLocal
    | none => false

end FabricPeerExt.Validation
