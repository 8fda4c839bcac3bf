/-
FabricPeerExt.Offledger.Disseminator — the peers to which off-ledger data is sent and from which
it is asked for, `pkg/collections/offledger/dissemination/disseminator.go`.

Neither function looks whether a peer of the second kind has been taken as one of the first
(`selectsPeers_iff`).
-/
import FabricPeerExt.Lib.Sample
import FabricPeerExt.Transientdata.Disseminator

namespace FabricPeerExt.Offledger

open Lib
open PvtData (GoString)
open Transientdata (AccessPolicy endorserRole)
open Validation (Member PeerGroup Discovery committerRole)

/-! ## The code -/

def isClustered (localRoles : List Bytes) : Bool :=
  (localRoles.contains committerRole && !localRoles.contains endorserRole) ||
    (localRoles.contains endorserRole && !localRoles.contains committerRole)

def getOLCollMaxPeersForRetrieval (maxPeers : Int) : Int := if maxPeers ≤ 0 then 2 else maxPeers

/-- `PeerGroup.Remote`. -/
def remote (g : PeerGroup) : PeerGroup := g.filter fun p => !p.isLocal

/-- The loops of `filterPeers` and `resolvePeersForDissemination`: peers are added as long as
there are not enough. -/
def addPeers (includePeer : Member → Bool) (maxNum : Int) : PeerGroup → PeerGroup → PeerGroup
  | filteredPeers, [] => filteredPeers
  | filteredPeers, peer :: peers =>
    if maxNum ≤ filteredPeers.length then filteredPeers
    else if includePeer peer then addPeers includePeer maxNum (filteredPeers ++ [peer]) peers
    else addPeers includePeer maxNum filteredPeers peers

/-- `Disseminator.filterPeers`. -/
def filterPeers (peers : PeerGroup) (includePeer : Member → Bool) (maxNum : Int) : PeerGroup :=
  addPeers includePeer maxNum [] peers

def takePeers (maxPeers : Int) : PeerGroup → PeerGroup → PeerGroup
  | result, [] => result
  | result, peer :: peers =>
    if result.length = maxPeers then result else takePeers maxPeers (result ++ [peer]) peers

/-- `getRandomPeers`. -/
def getRandomPeers (r : Rand) (peers : PeerGroup) (maxPeers : Int) : PeerGroup :=
  takePeers maxPeers [] (shuffle r peers)

/-- What a peer sees of the channel: endpoints are distinct. -/
structure View extends Discovery where
  distinct : ((peers ++ [self]).map Member.endpoint).Nodup

/-- `Disseminator`, with the roles of the local peer and the configured number of peers to
ask. A filter that is nil includes every peer. -/
structure Disseminator where
  view : View
  policy : AccessPolicy
  localRoles : List Bytes
  maxPeers : Int

namespace Disseminator

variable (d : Disseminator)

/-- `Disseminator.getPeersWithRole`. -/
def getPeersWithRole (role : Bytes) (mspIDs : List GoString) : PeerGroup :=
  d.view.getMembers fun m => m.hasRole role && mspIDs.contains m.mspID

/-- `Disseminator.resolvePeersForDissemination`. -/
def resolvePeersForDissemination (r r' : Rand) : PeerGroup :=
  let orgs := d.policy.memberOrgs
  let maxPeerCount := d.policy.maximumPeerCount
  if maxPeerCount = 0 then []
  else
    let committers :=
      getRandomPeers r (remote (d.getPeersWithRole committerRole orgs)) maxPeerCount
    if committers.length < maxPeerCount then
      addPeers (fun _ => true) maxPeerCount committers
        (shuffle r' (remote (d.getPeersWithRole endorserRole orgs)))
    else committers

/-- `Disseminator.resolveOrgsForRetrieval`. -/
def resolveOrgsForRetrieval : List GoString :=
  if isClustered d.localRoles then
    d.policy.memberOrgs.filter fun org => org ≠ d.view.self.mspID
  else d.policy.memberOrgs

def maxPeersForRetrieval : Int := getOLCollMaxPeersForRetrieval d.maxPeers

/-- `Disseminator.ResolvePeersForRetrieval`. -/
def resolvePeersForRetrieval (r r' : Rand) (includePeer : Member → Bool) : PeerGroup :=
  let orgs := d.resolveOrgsForRetrieval
  let maxPeers := d.maxPeersForRetrieval
  let peersForRetrieval :=
    filterPeers (shuffle r (remote (d.getPeersWithRole endorserRole orgs))) includePeer maxPeers
  if peersForRetrieval.length < maxPeers then
    peersForRetrieval ++
      filterPeers (shuffle r' (remote (d.getPeersWithRole committerRole orgs))) includePeer
        (maxPeers - peersForRetrieval.length)
  else peersForRetrieval

/-! ## What the peers should be -/

/-- The organisations to ask: the members of the collection, without the own one if the peer
has only one of the two roles. -/
def orgsToAsk : List GoString :=
  d.policy.memberOrgs.filter fun org => org ≠ d.view.self.mspID ||
    d.localRoles.contains committerRole == d.localRoles.contains endorserRole

def candidates (role : Bytes) (orgs : List GoString) (includePeer : Member → Bool) : PeerGroup :=
  (d.view.peers ++ [d.view.self]).filter fun m =>
    !m.isLocal && orgs.contains m.mspID && m.hasRole role && includePeer m

def eligible (orgs : List GoString) (includePeer : Member → Bool) : PeerGroup :=
  (d.view.peers ++ [d.view.self]).filter fun m =>
    !m.isLocal && orgs.contains m.mspID &&
      (m.hasRole committerRole || m.hasRole endorserRole) && includePeer m

end Disseminator

/-- Distinct peers of those that are eligible, as many as are wanted or as there are. -/
structure Selects (eligible : PeerGroup) (maxPeers : Int) (chosen : PeerGroup) : Prop where
  distinct : (chosen.map Member.endpoint).Nodup
  mem : ∀ m ∈ chosen, m ∈ eligible
  number : (chosen.length : Int) = min maxPeers eligible.length

/-! ## The loops -/

theorem addPeers_eq (includePeer : Member → Bool) (maxNum : Int) (acc peers : PeerGroup) :
    addPeers includePeer maxNum acc peers =
      acc ++ (peers.filter includePeer).take (maxNum - acc.length).toNat := by
  induction peers generalizing acc with
  | nil => simp [addPeers]
  | cons peer peers ih =>
    rw [addPeers]
    by_cases henough : maxNum ≤ acc.length
    · rw [if_pos henough, Int.toNat_of_nonpos (by omega), List.take_zero, List.append_nil]
    · rw [if_neg henough]
      by_cases hinc : includePeer peer = true
      · have hnum : (maxNum - acc.length).toNat =
            (maxNum - (acc ++ [peer]).length).toNat + 1 := by
          rw [List.length_append, List.length_singleton]
          omega
        rw [if_pos hinc, ih, List.filter_cons_of_pos hinc, hnum, List.take_succ_cons,
          List.append_assoc]
        rfl
      · rw [if_neg hinc, ih, List.filter_cons_of_neg hinc]

theorem takePeers_eq {maxPeers : Int} {acc : PeerGroup} (hle : acc.length ≤ maxPeers)
    (peers : PeerGroup) :
    takePeers maxPeers acc peers = acc ++ peers.take (maxPeers - acc.length).toNat := by
  induction peers generalizing acc with
  | nil => simp [takePeers]
  | cons peer peers ih =>
    rw [takePeers]
    by_cases henough : (acc.length : Int) = maxPeers
    · rw [if_pos henough, henough, sub_self, Int.toNat_zero, List.take_zero, List.append_nil]
    · have hnum : (maxPeers - acc.length).toNat =
          (maxPeers - (acc ++ [peer]).length).toNat + 1 := by
        rw [List.length_append, List.length_singleton]
        omega
      rw [if_neg henough, ih (by rw [List.length_append, List.length_singleton]; omega), hnum,
        List.take_succ_cons, List.append_assoc]
      rfl

namespace Disseminator

variable (d : Disseminator)

/-! ## Two kinds of peers -/

variable (role : Bytes)

theorem remote_getPeersWithRole (orgs : List GoString) :
    remote (d.getPeersWithRole role orgs) = d.candidates role orgs fun _ => true := by
  rw [remote, getPeersWithRole, Discovery.getMembers, ← List.filter_append, List.filter_filter,
    candidates]
  refine List.filter_congr fun m _ => ?_
  simp only [Bool.and_true, Bool.and_assoc]
  rw [Bool.and_comm (m.hasRole role)]

theorem filter_candidates (orgs : List GoString) (includePeer : Member → Bool) :
    (d.candidates role orgs fun _ => true).filter includePeer =
      d.candidates role orgs includePeer := by
  rw [candidates, List.filter_filter, candidates]
  refine List.filter_congr fun m _ => ?_
  rw [Bool.and_true, Bool.and_comm]

theorem nodup_candidates (orgs : List GoString) (includePeer : Member → Bool) :
    (d.candidates role orgs includePeer).Nodup :=
  (List.Nodup.of_map _ d.view.distinct).sublist List.filter_sublist

/-- Distinct peers have distinct endpoints. -/
theorem nodup_endpoints {peers : PeerGroup} (hmem : ∀ m ∈ peers, m ∈ d.view.peers ++ [d.view.self])
    (hnodup : peers.Nodup) : (peers.map Member.endpoint).Nodup :=
  hnodup.map_on fun m hm m' hm' heq =>
    List.inj_on_of_nodup_map d.view.distinct (hmem m hm) (hmem m' hm') heq

section
variable {first second : Bytes} {orgs : List GoString} {includePeer : Member → Bool}

section
variable (hroles : ∀ m : Member, (m.hasRole committerRole || m.hasRole endorserRole) = (m.hasRole
  first || m.hasRole second))
include hroles

/-- The peers that are eligible are those of the two kinds. -/
theorem mem_eligible_iff {m : Member} :
    m ∈ d.eligible orgs includePeer ↔
      m ∈ d.candidates first orgs includePeer ∨ m ∈ d.candidates second orgs includePeer := by
  simp only [eligible, candidates, List.mem_filter, hroles m, Bool.and_eq_true, Bool.or_eq_true]
  tauto

theorem length_eligible_of_disjoint (hdis : (d.candidates first orgs includePeer).Disjoint
      (d.candidates second orgs includePeer)) :
    (d.eligible orgs includePeer).length = (d.candidates first orgs includePeer).length +
      (d.candidates second orgs includePeer).length := by
  have hnodup : (d.eligible orgs includePeer).Nodup :=
    (List.Nodup.of_map _ d.view.distinct).sublist List.filter_sublist
  have hboth := (d.nodup_candidates first orgs includePeer).append
    (d.nodup_candidates second orgs includePeer) hdis
  rw [← List.length_append]
  refine List.Perm.length_eq ((List.perm_ext_iff_of_nodup hnodup hboth).mpr fun m => ?_)
  rw [List.mem_append]
  exact d.mem_eligible_iff hroles

/-- What is taken of the first kind and, to top it up, of the second is what is wanted,
whatever the orders, exactly if the first kind is enough or no peer is of both kinds. -/
theorem selects_topUp_iff {F G : Rand → List Member} {n : Nat}
    (hF : Shuffles F (d.candidates first orgs includePeer))
    (hG : Shuffles G (d.candidates second orgs includePeer)) :
    (∀ r r', Selects (d.eligible orgs includePeer) n (topUp n (F r) (G r'))) ↔
      n ≤ (d.candidates first orgs includePeer).length ∨
        (d.candidates first orgs includePeer).Disjoint
          (d.candidates second orgs includePeer) := by
  have hnodup := nodup_topUp_iff hF hG (d.nodup_candidates first orgs includePeer)
    (d.nodup_candidates second orgs includePeer) n
  constructor
  · intro h
    exact hnodup.mp fun r r' => List.Nodup.of_map _ (h r r').distinct
  · intro h r r'
    have hmem : ∀ m ∈ topUp n (F r) (G r'), m ∈ d.eligible orgs includePeer := by
      intro m hm
      refine (d.mem_eligible_iff hroles).mpr ?_
      rcases mem_of_mem_topUp hm with hm | hm
      · exact .inl ((hF.perm r).mem_iff.mp hm)
      · exact .inr ((hG.perm r').mem_iff.mp hm)
    refine ⟨d.nodup_endpoints (fun m hm => (List.mem_filter.mp (hmem m hm)).1) (hnodup.mpr h r r'),
      hmem, ?_⟩
    rw [length_topUp, (hF.perm r).length_eq, (hG.perm r').length_eq]
    rcases h with hlen | hdis
    · have hle : (d.candidates first orgs includePeer).length ≤
          (d.eligible orgs includePeer).length :=
        (List.subperm_of_subset (d.nodup_candidates first orgs includePeer) fun m hm =>
          (d.mem_eligible_iff hroles).mpr (.inl hm)).length_le
      omega
    · have := d.length_eligible_of_disjoint hroles hdis
      omega

end

end

/-! ## The peers that are chosen -/

theorem resolveOrgsForRetrieval_eq : d.resolveOrgsForRetrieval = d.orgsToAsk := by
  rw [resolveOrgsForRetrieval, isClustered, orgsToAsk]
  cases d.localRoles.contains committerRole <;> cases d.localRoles.contains endorserRole <;> simp

theorem resolvePeersForDissemination_eq (h : 0 ≤ d.policy.maximumPeerCount) (r r' : Rand) :
    d.resolvePeersForDissemination r r' = topUp d.policy.maximumPeerCount.toNat
      (shuffle r (d.candidates committerRole d.policy.memberOrgs fun _ => true))
      (shuffle r' (d.candidates endorserRole d.policy.memberOrgs fun _ => true)) := by
  rw [resolvePeersForDissemination, remote_getPeersWithRole, remote_getPeersWithRole,
    getRandomPeers, takePeers_eq h]
  dsimp only
  rw [addPeers_eq]
  generalize shuffle r _ = xs
  generalize shuffle r' _ = ys
  obtain ⟨n, hn⟩ := Int.eq_ofNat_of_zero_le h
  simp only [hn, List.nil_append, List.length_nil, Nat.cast_zero, sub_zero, Int.toNat_natCast,
    List.length_take, List.filter_true, topUp]
  by_cases hzero : n = 0
  · simp [hzero]
  · rw [if_neg (by omega)]
    by_cases hlen : n ≤ xs.length
    · rw [if_neg (by omega), Nat.sub_eq_zero_of_le hlen, List.take_zero, List.append_nil]
    · have hnum : ((n : Int) - (min n xs.length : Nat)).toNat = n - xs.length := by omega
      rw [if_pos (by omega), hnum]

theorem resolvePeersForRetrieval_eq (r r' : Rand) (includePeer : Member → Bool) :
    d.resolvePeersForRetrieval r r' includePeer = topUp d.maxPeersForRetrieval.toNat
      ((shuffle r (d.candidates endorserRole d.resolveOrgsForRetrieval fun _ => true)).filter
        includePeer)
      ((shuffle r' (d.candidates committerRole d.resolveOrgsForRetrieval fun _ => true)).filter
        includePeer) := by
  rw [resolvePeersForRetrieval, remote_getPeersWithRole, remote_getPeersWithRole, filterPeers,
    filterPeers, addPeers_eq, addPeers_eq]
  generalize (shuffle r _).filter includePeer = xs
  generalize (shuffle r' _).filter includePeer = ys
  generalize d.maxPeersForRetrieval = n
  simp only [List.nil_append, List.length_nil, Nat.cast_zero, sub_zero, List.length_take, topUp]
  by_cases hlen : n.toNat ≤ xs.length
  · rw [if_neg (by omega), Nat.sub_eq_zero_of_le hlen, List.take_zero, List.append_nil]
  · have hnum : (n - (min n.toNat xs.length : Nat)).toNat = n.toNat - xs.length := by omega
    rw [if_pos (by omega), hnum]

theorem shuffles_filter_candidates (orgs : List GoString)
    (includePeer : Member → Bool) :
    Shuffles (fun r => (shuffle r (d.candidates role orgs fun _ => true)).filter includePeer)
      (d.candidates role orgs includePeer) := by
  have h := (shuffles_shuffle (d.candidates role orgs fun _ => true)).filter includePeer
  rwa [filter_candidates] at h

/-- The peers chosen for dissemination are distinct eligible peers, as many as are wanted or
as there are, for every random choice, exactly if the committers are enough or none of them
is an endorser too; those chosen for retrieval, exactly if the endorsers that pass the
filter are enough or none of them is a committer too. -/
theorem selectsPeers_iff (includePeer : Member → Bool) :
    ((∀ r r', Selects (d.eligible d.policy.memberOrgs fun _ => true) d.policy.maximumPeerCount
        (d.resolvePeersForDissemination r r')) ↔
      0 ≤ d.policy.maximumPeerCount ∧
        (d.policy.maximumPeerCount ≤
            (d.candidates committerRole d.policy.memberOrgs fun _ => true).length ∨
          (d.candidates committerRole d.policy.memberOrgs fun _ => true).Disjoint
            (d.candidates endorserRole d.policy.memberOrgs fun _ => true))) ∧
    ((∀ r r', Selects (d.eligible d.orgsToAsk includePeer) d.maxPeersForRetrieval
        (d.resolvePeersForRetrieval r r' includePeer)) ↔
      d.maxPeersForRetrieval ≤
          (d.candidates endorserRole d.orgsToAsk includePeer).length ∨
        (d.candidates endorserRole d.orgsToAsk includePeer).Disjoint
          (d.candidates committerRole d.orgsToAsk includePeer)) := by
  rw [← d.resolveOrgsForRetrieval_eq]
  constructor
  · by_cases hmax : 0 ≤ d.policy.maximumPeerCount
    · have h := d.selects_topUp_iff (n := d.policy.maximumPeerCount.toNat) (fun _ => rfl)
        (shuffles_shuffle (d.candidates committerRole d.policy.memberOrgs fun _ => true))
        (shuffles_shuffle (d.candidates endorserRole d.policy.memberOrgs fun _ => true))
      simp only [d.resolvePeersForDissemination_eq hmax, hmax, true_and]
      rw [Int.toNat_of_nonneg hmax, Int.toNat_le] at h
      exact h
    · refine ⟨fun h => ?_, fun h => absurd h.1 hmax⟩
      have hnum := (h ⟨List.range, fun n => .refl _⟩ ⟨List.range, fun n => .refl _⟩).number
      omega
  · have hmax : 0 ≤ d.maxPeersForRetrieval := by
      rw [maxPeersForRetrieval, getOLCollMaxPeersForRetrieval]
      split <;> omega
    have h := d.selects_topUp_iff (n := d.maxPeersForRetrieval.toNat)
      (fun m => Bool.or_comm _ _)
      (d.shuffles_filter_candidates endorserRole d.resolveOrgsForRetrieval includePeer)
      (d.shuffles_filter_candidates committerRole d.resolveOrgsForRetrieval includePeer)
    simp only [d.resolvePeersForRetrieval_eq]
    rw [Int.toNat_of_nonneg hmax, Int.toNat_le] at h
    exact h

end Disseminator

def onePeer : Disseminator where
  view :=
    { peers := [⟨[112, 49], [79], none, false⟩]
      self := ⟨[112, 48], [79], some [], true⟩
      distinct := by decide }
  policy := ⟨[[79]], List.nodup_singleton _, 2⟩
  localRoles := [committerRole, endorserRole]
  maxPeers := 2

/-- The only other peer is chosen twice, to send to and to ask. -/
theorem not_selects_onePeer :
    let r : Rand := ⟨List.range, fun _ => .refl _⟩
    ¬ Selects (onePeer.eligible onePeer.policy.memberOrgs fun _ => true) 2
        (onePeer.resolvePeersForDissemination r r) ∧
      ¬ Selects (onePeer.eligible onePeer.orgsToAsk fun _ => true) 2
        (onePeer.resolvePeersForRetrieval r r fun _ => true) :=
  ⟨fun h => absurd h.distinct (by decide), fun h => absurd h.distinct (by decide)⟩

end FabricPeerExt.Offledger
