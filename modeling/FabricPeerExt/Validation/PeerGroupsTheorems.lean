/-
FabricPeerExt.Validation.PeerGroupsTheorems — do the peers of an organisation agree on who
validates what (`agree_iff_settled`)?

Every peer sees the same members, the others in an order of its own and itself last. A candidate
at a position is the same for all only if there is one.
-/
import FabricPeerExt.Lib.SelfLast
import FabricPeerExt.Validation.PeerGroups

namespace FabricPeerExt.Validation

open Lib

/-! ## Memberships and views -/

/-- The members of a channel as others see them, and an organisation. -/
structure Membership where
  members : List Member
  org : Bytes
  /-- Endpoints are distinct. -/
  distinct : (members.map Member.endpoint).Nodup
  /-- `Local` is set in a member's own view only. -/
  remote : ∀ m ∈ members, m.isLocal = false

def Member.asLocal (m : Member) : Member := { m with isLocal := true }

@[simp] theorem Member.endpoint_asLocal (m : Member) : m.asLocal.endpoint = m.endpoint := rfl

namespace Membership

variable (M : Membership)

/-- The peers of the organisation. A member whose properties are not known is not among
them: it sees itself with its roles, so it does not see this set. -/
def orgPeers : List Member := M.members.filter fun m => m.mspID = M.org && m.roles.isSome

/-- The peer `p` sees the membership: the others in some order, and itself. -/
def Sees (p : Member) (disc : Discovery) : Prop :=
  disc.self = p.asLocal ∧ disc.peers.Perm (M.members.erase p)

def candidates (accept : Member → Bool) : List Bytes :=
  (M.members.filter accept).map Member.endpoint

end Membership

def acceptBoth (org : Bytes) (m : Member) : Bool :=
  acceptRole org committerRole m && acceptRole org validatorRole m

/-- The filter does not read `Local`. -/
def IgnoresLocal (accept : Member → Bool) : Prop := ∀ m : Member, accept m.asLocal = accept m

theorem acceptRole_org {org role : Bytes} {m : Member} (h : acceptRole org role m = true) :
    m.mspID = org ∧ m.roles.isSome = true := by
  simp only [acceptRole, Bool.and_eq_true, decide_eq_true_eq] at h
  refine ⟨h.1, ?_⟩
  cases hr : m.roles with
  | none => simp [hr] at h
  | some roles => rfl

theorem ignoresLocal_acceptRole (org role : Bytes) : IgnoresLocal (acceptRole org role) :=
  fun _ => rfl

theorem ignoresLocal_acceptBoth (org : Bytes) : IgnoresLocal (acceptBoth org) := fun _ => rfl

theorem getMembers_eq (disc : Discovery) (accept : Member → Bool) :
    disc.getMembers accept = (disc.peers ++ [disc.self]).filter accept := by
  rw [Discovery.getMembers, List.filter_append]

section
variable {M : Membership} {p : Member} {disc : Discovery} {accept : Member → Bool}

theorem Membership.endpoint_inj {m m' : Member} (hm : m ∈ M.members) (hm' : m' ∈ M.members)
    (h : m.endpoint = m'.endpoint) : m = m' :=
  List.inj_on_of_nodup_map M.distinct hm hm' h

theorem Membership.nodup_candidates (accept : Member → Bool) : (M.candidates accept).Nodup :=
  M.distinct.sublist (List.filter_sublist.map _)

/-- The endpoints of the others that pass, in the order in which `p` sees them, and `p`'s. -/
theorem Membership.Sees.perm_candidates (h : M.Sees p disc) (hp : p ∈ M.members)
    (hlocal : IgnoresLocal accept) :
    ((disc.getMembers accept).map Member.endpoint).Perm (M.candidates accept) := by
  obtain ⟨hself, hpeers⟩ := h
  have hmem : (p :: M.members.erase p).Perm M.members := (List.perm_cons_erase hp).symm
  have hall : ((disc.getMembers accept).map Member.endpoint).Perm
      (((p :: M.members.erase p).filter accept).map Member.endpoint) := by
    rw [getMembers_eq, hself]
    have hview : ((disc.peers ++ [p.asLocal]).filter accept).Perm
        ([p.asLocal].filter accept ++ (M.members.erase p).filter accept) := by
      rw [← List.filter_append]
      exact (List.perm_append_comm.trans ((hpeers.append_left _))).filter accept
    refine (hview.map Member.endpoint).trans (.of_eq ?_)
    rw [show p :: M.members.erase p = [p] ++ M.members.erase p from rfl, List.filter_append,
      List.map_append, List.map_append]
    congr 1
    by_cases ha : accept p = true
    · simp [hlocal p, ha]
    · simp [hlocal p, ha]
  exact hall.trans ((hmem.filter accept).map _)

/-- A member that passes sees itself last among those that pass. -/
theorem Membership.Sees.selfLast (h : M.Sees p disc) (hp : p ∈ M.members.filter accept)
    (hlocal : IgnoresLocal accept) :
    SelfLast (M.candidates accept) p.endpoint ((disc.getMembers accept).map Member.endpoint) := by
  obtain ⟨hmem, hacc⟩ := List.mem_filter.mp hp
  refine ⟨h.perm_candidates hmem hlocal, (disc.peers.filter accept).map Member.endpoint, ?_⟩
  rw [Discovery.getMembers, h.1, List.map_append]
  simp [hlocal p, hacc]

/-- In `p`'s view the local member is the one with `p`'s endpoint. -/
theorem Membership.Sees.isLocal_iff (h : M.Sees p disc) (hp : p ∈ M.members) {m : Member}
    (hm : m ∈ disc.getMembers accept) : m.isLocal = true ↔ m.endpoint = p.endpoint := by
  rw [getMembers_eq, h.1] at hm
  rcases List.mem_append.mp (List.mem_of_mem_filter hm) with hother | hself
  · have hmem : m ∈ M.members.erase p := h.2.mem_iff.mp hother
    have hin := List.mem_of_mem_erase hmem
    have hne : m ≠ p := by
      rintro rfl
      exact (List.Nodup.not_mem_erase (List.Nodup.of_map _ M.distinct)) hmem
    refine iff_of_false ?_ fun heq => hne (Membership.endpoint_inj hin hp heq)
    rw [M.remote m hin]
    decide
  · obtain rfl := List.mem_singleton.mp hself
    exact iff_of_true rfl rfl

end

/-! ## What the choice rests on -/

/-- On what the choice rests. -/
inductive Mode where
  /-- The candidate at a position of the list of those that pass the filter. -/
  | one (accept : Member → Bool) (position : Nat)
  /-- All validators. -/
  | all
  /-- There is nobody to validate the block. -/
  | nobody

def mode (M : Membership) (policy : Policy) (block : Block) : Mode :=
  if block.data.length < policy.committerTransactionThreshold ∧
      M.candidates (acceptRole M.org committerRole) ≠ [] then
    .one (acceptRole M.org committerRole) 0
  else if block.data.length < policy.singlePeerTransactionThreshold ∧
      M.candidates (acceptBoth M.org) ≠ [] then .one (acceptBoth M.org) 0
  else if M.candidates (acceptRole M.org validatorRole) ≠ [] then
    if block.data.length < policy.singlePeerTransactionThreshold then
      .one (acceptRole M.org validatorRole)
        (block.number.toNat % (M.candidates (acceptRole M.org validatorRole)).length)
    else .all
  else if M.candidates (acceptRole M.org committerRole) ≠ [] then
    .one (acceptRole M.org committerRole) 0
  else .nobody

theorem candidates_ne_nil_of_mode_all {M : Membership} {policy : Policy} {block : Block}
    (h : mode M policy block = .all) : M.candidates (acceptRole M.org validatorRole) ≠ [] := by
  unfold mode at h
  split at h
  next => cases h
  next =>
    split at h
    next => cases h
    next =>
      split at h
      next hv => exact hv
      next => split at h <;> cases h

theorem mode_position {M : Membership} {policy : Policy} {block : Block} {accept : Member → Bool}
    {k : Nat} (h : mode M policy block = .one accept k) :
    IgnoresLocal accept ∧ k < (M.candidates accept).length ∧
      ∀ m, accept m = true → m.mspID = M.org ∧ m.roles.isSome = true := by
  have hrole : ∀ role m, acceptRole M.org role m = true →
      m.mspID = M.org ∧ m.roles.isSome = true := fun _ _ => acceptRole_org
  have hboth : ∀ m, acceptBoth M.org m = true → m.mspID = M.org ∧ m.roles.isSome = true := by
    intro m hm
    rw [acceptBoth, Bool.and_eq_true] at hm
    exact hrole _ m hm.1
  unfold mode at h
  split at h
  next hc =>
    cases h
    exact ⟨ignoresLocal_acceptRole _ _, List.length_pos_of_ne_nil hc.2, hrole _⟩
  next =>
    split at h
    next hb =>
      cases h
      exact ⟨ignoresLocal_acceptBoth _, List.length_pos_of_ne_nil hb.2, hboth⟩
    next =>
      split at h
      next hv =>
        split at h
        next =>
          cases h
          exact ⟨ignoresLocal_acceptRole _ _, Nat.mod_lt _ (List.length_pos_of_ne_nil hv),
            hrole _⟩
        next => cases h
      next =>
        split at h
        next hc =>
          cases h
          exact ⟨ignoresLocal_acceptRole _ _, List.length_pos_of_ne_nil hc, hrole _⟩
        next => cases h

/-! ## The groups in one peer's view -/

section
variable {M : Membership} {p : Member} {disc : Discovery}

theorem sortGroups_singleton (m : Member) : sortGroups (asPeerGroups [m]) = [[m]] := rfl

theorem Membership.Sees.getMembers_eq_nil (h : M.Sees p disc) (hp : p ∈ M.members)
    {accept : Member → Bool} (hlocal : IgnoresLocal accept) :
    disc.getMembers accept = [] ↔ M.candidates accept = [] := by
  have hperm := h.perm_candidates hp hlocal
  constructor
  · intro hnil
    rw [hnil] at hperm
    exact hperm.symm.eq_nil
  · intro hnil
    rw [hnil] at hperm
    exact List.map_eq_nil_iff.mp hperm.eq_nil

/-- The first committer that is a validator too. -/
theorem find?_committers (disc : Discovery) (org : Bytes) :
    (disc.getMembers (acceptRole org committerRole)).find?
        (fun peer => peer.hasRole validatorRole) = (disc.getMembers (acceptBoth org))[0]? := by
  rw [getMembers_eq, getMembers_eq, List.find?_filter, ← List.head?_eq_getElem?, List.head?_filter]
  congr 1
  funext ⟨endpoint, mspID, roles, isLocal⟩
  cases roles with
  | none => simp [acceptBoth, acceptRole]
  | some roles =>
    by_cases horg : mspID = org <;> simp [acceptBoth, acceptRole, Member.hasRole, horg]

/-- The groups that a peer of the organisation computes. -/
theorem Membership.Sees.groupsFor_eq (h : M.Sees p disc) (hp : p ∈ M.orgPeers) (policy : Policy)
    (block : Block) :
    groupsFor policy disc block =
      match mode M policy block with
      | .one accept k => .ok ((disc.getMembers accept)[k]?.elim [] fun m => [[m]])
      | .all => .ok (sortGroups (asPeerGroups
          (disc.getMembers (acceptRole M.org validatorRole))))
      | .nobody => .error s!"there are no validators or committers for block {block.number}" := by
  obtain ⟨hmem, horg⟩ := List.mem_filter.mp hp
  simp only [Bool.and_eq_true, decide_eq_true_eq] at horg
  have hself : disc.self.mspID = M.org := by
    rw [h.1]
    exact horg.1
  have hC := h.getMembers_eq_nil hmem (ignoresLocal_acceptRole M.org committerRole)
  have hV := h.getMembers_eq_nil hmem (ignoresLocal_acceptRole M.org validatorRole)
  have hB := h.getMembers_eq_nil hmem (ignoresLocal_acceptBoth M.org)
  have hlen : (disc.getMembers (acceptRole M.org validatorRole)).length =
      (M.candidates (acceptRole M.org validatorRole)).length := by
    simpa using (h.perm_candidates hmem (ignoresLocal_acceptRole M.org validatorRole)).length_eq
  have hfind := find?_committers disc M.org
  simp only [groupsFor, PeerGroupSelector.groups, PeerGroupSelector.selectByThreshold,
    PeerGroupSelector.selectCommitter, PeerGroupSelector.selectValidator, newPeerGroupSelector,
    peersWithRole, hself, hfind, List.head?_eq_getElem?]
  unfold mode
  have hget : ∀ {l : List Member}, l ≠ [] → ∃ m, l[0]? = some m := fun hne =>
    ⟨_, List.getElem?_eq_getElem (List.length_pos_of_ne_nil hne)⟩
  by_cases hcommitter : block.data.length < policy.committerTransactionThreshold ∧
      M.candidates (acceptRole M.org committerRole) ≠ []
  · obtain ⟨m, hm⟩ := hget (mt hC.mp hcommitter.2)
    simp [hcommitter.1, hcommitter.2, hm, sortGroups_singleton]
  rw [if_neg hcommitter]
  have hnone : (if block.data.length < policy.committerTransactionThreshold then
      (disc.getMembers (acceptRole M.org committerRole))[0]? else none) = none := by
    split
    next hlt => simp [hC.mpr (by simpa [hlt] using hcommitter)]
    next => rfl
  simp only [hnone]
  by_cases hboth : block.data.length < policy.singlePeerTransactionThreshold ∧
      M.candidates (acceptBoth M.org) ≠ []
  · obtain ⟨m, hm⟩ := hget (mt hB.mp hboth.2)
    simp [hboth.1, hboth.2, hm, sortGroups_singleton]
  rw [if_neg hboth]
  by_cases hvalidator : M.candidates (acceptRole M.org validatorRole) = []
  case neg =>
    rw [if_pos hvalidator]
    by_cases hsingle : block.data.length < policy.singlePeerTransactionThreshold
    · have hB' : disc.getMembers (acceptBoth M.org) = [] := hB.mpr (by simpa [hsingle] using hboth)
      have hpos : 0 < (M.candidates (acceptRole M.org validatorRole)).length :=
        List.length_pos_of_ne_nil hvalidator
      obtain ⟨m, hm⟩ : ∃ m, (disc.getMembers (acceptRole M.org validatorRole))[
          block.number.toNat % (M.candidates (acceptRole M.org validatorRole)).length]? = some m :=
        ⟨_, List.getElem?_eq_getElem (by rw [hlen]; exact Nat.mod_lt _ hpos)⟩
      simp [hsingle, hB', hlen, hm, sortGroups_singleton]
    · simp [hsingle, mt hV.mp hvalidator]
  case pos =>
    have hV' := hV.mpr hvalidator
    have hB' : disc.getMembers (acceptBoth M.org) = [] := by
      rw [getMembers_eq, List.filter_eq_nil_iff] at hV' ⊢
      exact fun m hm hacc => hV' m hm (Bool.and_eq_true_iff.mp hacc).2
    simp only [hvalidator, ne_eq, not_true_eq_false, if_false, hB', hV']
    by_cases hcom : M.candidates (acceptRole M.org committerRole) = []
    · simp [hcom, hC.mpr hcom]
    · obtain ⟨m, hm⟩ := hget (mt hC.mp hcom)
      simp [hcom, hm, sortGroups_singleton]

end

/-! ## Sorted groups -/

def endpointLe (e e' : Bytes) : Prop := [91] ++ e ++ [93] ≤ [91] ++ e' ++ [93]

instance decidableEndpointLe : DecidableRel endpointLe :=
  fun e e' => inferInstanceAs (Decidable ([91] ++ e ++ [93] ≤ [91] ++ e' ++ [93]))

instance totalEndpointLe : Std.Total endpointLe := ⟨fun _ _ => List.le_total _ _⟩

instance transEndpointLe : IsTrans Bytes endpointLe := ⟨fun _ _ _ => List.le_trans⟩

theorem endpointLe_antisymm {e e' : Bytes} (h : endpointLe e e') (h' : endpointLe e' e) :
    e = e' := by
  simpa using List.le_antisymm h h'

/-- The endpoints of the sorted groups are the sorted endpoints. -/
theorem endpoints_sortGroups (l : List Member) :
    (sortGroups (asPeerGroups l)).map (List.map Member.endpoint) =
      ((l.map Member.endpoint).insertionSort endpointLe).map fun e => [e] := by
  have hsort : (asPeerGroups l).map PeerGroup.sort = asPeerGroups l := by
    simp [asPeerGroups, PeerGroup.sort]
  have hgroups : sortGroups (asPeerGroups l) =
      (l.insertionSort fun m m' => endpointLe m.endpoint m'.endpoint).map fun m => [m] := by
    rw [sortGroups, hsort]
    refine (List.map_insertionSort (fun m m' : Member => endpointLe m.endpoint m'.endpoint)
      (fun g g' : PeerGroup => g.string ≤ g'.string) (fun m => [m]) l fun m _ m' _ => ?_).symm
    simp [endpointLe, PeerGroup.string]
  rw [hgroups, ← List.map_insertionSort (fun m m' : Member => endpointLe m.endpoint m'.endpoint)]
  · simp
  · exact fun _ _ _ _ => Iff.rfl

theorem sorted_endpoints_perm {l l' : List Bytes} (h : l.Perm l') :
    l.insertionSort endpointLe = l'.insertionSort endpointLe := by
  refine List.Perm.eq_of_pairwise (fun _ _ _ _ => endpointLe_antisymm)
    (List.pairwise_insertionSort _ _) (List.pairwise_insertionSort _ _) ?_
  exact (List.perm_insertionSort _ _).trans (h.trans (List.perm_insertionSort _ _).symm)

/-! ## Agreement -/

def endpointsOf (groups : Except String (List PeerGroup)) : Except String (List (List Bytes)) :=
  groups.map (List.map (List.map Member.endpoint))

/-- The peers of the organisation agree on the block: they compute the same groups, and every
transaction passes the filter of exactly one of them. `disc p` is what `p` sees. -/
structure Agree (M : Membership) (policy : Policy) (block : Block) (disc : Member → Discovery) :
    Prop where
  groups : ∀ p ∈ M.orgPeers, ∀ q ∈ M.orgPeers,
    endpointsOf (groupsFor policy (disc p) block) = endpointsOf (groupsFor policy (disc q) block)
  assigned : ∀ i < block.data.length,
    ∃! p, p ∈ M.orgPeers ∧ getTxFilter policy (disc p) block i = true

/-- The condition under which they agree: if one candidate is to be selected, there is only
one; and if there is nobody, so that everybody validates everything, there is one peer or no
transaction. -/
def Settled (M : Membership) (policy : Policy) (block : Block) : Prop :=
  match mode M policy block with
  | .one accept _ => (M.candidates accept).length = 1
  | .all => True
  | .nobody => M.orgPeers.length = 1 ∨ block.data.length = 0

section
variable {M : Membership} {policy : Policy} {block : Block} {disc : Member → Discovery}

theorem Membership.mem_of_orgPeers {p : Member} (h : p ∈ M.orgPeers) : p ∈ M.members :=
  List.mem_of_mem_filter h

theorem mem_orgPeers_of_accept {accept : Member → Bool}
    (hacc : ∀ m, accept m = true → m.mspID = M.org ∧ m.roles.isSome = true) {p : Member}
    (hp : p ∈ M.members.filter accept) : p ∈ M.orgPeers := by
  obtain ⟨hmem, ha⟩ := List.mem_filter.mp hp
  refine List.mem_filter.mpr ⟨hmem, ?_⟩
  simpa using hacc p ha

/-- A transaction whose group consists of the member with endpoint `e` is the task of the peer
with that endpoint, and of no other. -/
theorem assigned_of_endpoint {accept : Member → Bool} {e : Bytes} (he : e ∈ M.candidates accept)
    (hacc : ∀ m, accept m = true → m.mspID = M.org ∧ m.roles.isSome = true)
    (hsees : ∀ p ∈ M.orgPeers, M.Sees p (disc p)) {i : Nat}
    (hgroup : ∀ p ∈ M.orgPeers, ∃ m ∈ (disc p).getMembers accept, m.endpoint = e ∧
      getTxFilter policy (disc p) block i = m.isLocal) :
    ∃! p, p ∈ M.orgPeers ∧ getTxFilter policy (disc p) block i = true := by
  obtain ⟨p₀, hp₀, hend⟩ := List.mem_map.mp he
  have hiff : ∀ p ∈ M.orgPeers, (getTxFilter policy (disc p) block i = true ↔ p = p₀) := by
    intro p hp
    obtain ⟨m, hm, hme, hfilter⟩ := hgroup p hp
    rw [hfilter, (hsees p hp).isLocal_iff (Membership.mem_of_orgPeers hp) hm, hme, ← hend]
    constructor
    · exact fun heq => (Membership.endpoint_inj (List.mem_of_mem_filter hp₀)
        (Membership.mem_of_orgPeers hp) heq).symm
    · rintro rfl
      rfl
  have horg : p₀ ∈ M.orgPeers := mem_orgPeers_of_accept hacc hp₀
  refine ⟨p₀, ⟨horg, (hiff p₀ horg).mpr rfl⟩, ?_⟩
  rintro p ⟨hp, hpass⟩
  exact (hiff p hp).mp hpass

section
variable (hsees : ∀ p ∈ M.orgPeers, M.Sees p (disc p))
include hsees

/-- One candidate is selected by its position: the peers agree if there is one candidate. -/
theorem agree_one_iff {accept : Member → Bool}
    {k : Nat} (hmode : mode M policy block = .one accept k) :
    Agree M policy block disc ↔ (M.candidates accept).length = 1 := by
  obtain ⟨hlocal, hk, hacc⟩ := mode_position hmode
  have hlen : ∀ p ∈ M.orgPeers, ((disc p).getMembers accept).length =
      (M.candidates accept).length := by
    intro p hp
    simpa using ((hsees p hp).perm_candidates (Membership.mem_of_orgPeers hp) hlocal).length_eq
  -- the selected member of each peer
  have hsel : ∀ p ∈ M.orgPeers, ∃ m ∈ (disc p).getMembers accept,
      ((disc p).getMembers accept)[k]? = some m ∧
      groupsFor policy (disc p) block = .ok [[m]] := by
    intro p hp
    have hk' : k < ((disc p).getMembers accept).length := by rw [hlen p hp]; exact hk
    refine ⟨_, List.getElem_mem hk', List.getElem?_eq_getElem hk', ?_⟩
    rw [(hsees p hp).groupsFor_eq hp, hmode]
    simp [List.getElem?_eq_getElem hk']
  constructor
  · intro hagree
    by_contra hne
    have htwo : 1 < (M.members.filter accept).length := by
      have : (M.candidates accept).length = (M.members.filter accept).length := List.length_map ..
      omega
    refine SelfLast.not_agree (P := M.members.filter accept) (f := Member.endpoint)
      (l := fun p => ((disc p).getMembers accept).map Member.endpoint)
      (fun p hp => (hsees p (mem_orgPeers_of_accept hacc hp)).selfLast hp hlocal)
      (Membership.nodup_candidates accept) htwo (k := k)
      (by simpa [Membership.candidates] using hk) fun p hp q hq => ?_
    obtain ⟨m, -, hm, hgp⟩ := hsel p (mem_orgPeers_of_accept hacc hp)
    obtain ⟨m', -, hm', hgq⟩ := hsel q (mem_orgPeers_of_accept hacc hq)
    have hsame :=
      hagree.groups p (mem_orgPeers_of_accept hacc hp) q (mem_orgPeers_of_accept hacc hq)
    rw [hgp, hgq] at hsame
    simp only [endpointsOf, Except.map, List.map_cons, List.map_nil, Except.ok.injEq,
      List.cons.injEq, and_true] at hsame
    simp [hm, hm', hsame]
  · intro hone
    obtain ⟨e, he⟩ := List.length_eq_one_iff.mp hone
    have hend : ∀ p ∈ M.orgPeers, ∃ m ∈ (disc p).getMembers accept, m.endpoint = e ∧
        groupsFor policy (disc p) block = .ok [[m]] := by
      intro p hp
      obtain ⟨m, hm, -, hgroups⟩ := hsel p hp
      refine ⟨m, hm, ?_, hgroups⟩
      have hmem := ((hsees p hp).perm_candidates (Membership.mem_of_orgPeers hp) hlocal).mem_iff.mp
        (List.mem_map_of_mem hm)
      rw [he] at hmem
      exact List.mem_singleton.mp hmem
    refine ⟨fun p hp q hq => ?_, fun i _ => ?_⟩
    · obtain ⟨m, -, hm, hgp⟩ := hend p hp
      obtain ⟨m', -, hm', hgq⟩ := hend q hq
      rw [hgp, hgq]
      simp [endpointsOf, Except.map, hm, hm']
    · refine assigned_of_endpoint (e := e) (by rw [he]; exact List.mem_singleton_self e) hacc hsees
        fun p hp => ?_
      obtain ⟨m, hm, hme, hgroups⟩ := hend p hp
      refine ⟨m, hm, hme, ?_⟩
      simp [getTxFilter, hgroups, Nat.mod_one, PeerGroup.containsLocal]

/-- All validators share the block: the groups are sorted, so the peers agree. -/
theorem agree_all (hmode : mode M policy block = .all) : Agree M policy block disc := by
  have hacc : ∀ m, acceptRole M.org validatorRole m = true →
      m.mspID = M.org ∧ m.roles.isSome = true := fun m => acceptRole_org
  have hlocal := ignoresLocal_acceptRole M.org validatorRole
  -- every peer computes the groups of the sorted endpoints
  have hgroups : ∀ p ∈ M.orgPeers, ∃ groups, groupsFor policy (disc p) block = .ok groups ∧
      groups.map (List.map Member.endpoint) =
        ((M.candidates (acceptRole M.org validatorRole)).insertionSort endpointLe).map
          (fun e => [e]) ∧
      ∀ g ∈ groups, ∃ m ∈ (disc p).getMembers (acceptRole M.org validatorRole), g = [m] := by
    intro p hp
    refine ⟨_, by rw [(hsees p hp).groupsFor_eq hp, hmode], ?_, fun g hg => ?_⟩
    · rw [endpoints_sortGroups, sorted_endpoints_perm
        ((hsees p hp).perm_candidates (Membership.mem_of_orgPeers hp) hlocal)]
    · have hg' : g ∈ asPeerGroups ((disc p).getMembers (acceptRole M.org validatorRole)) := by
        rw [sortGroups, List.mem_insertionSort] at hg
        simpa [asPeerGroups, PeerGroup.sort] using hg
      obtain ⟨m, hm, rfl⟩ := List.mem_map.mp hg'
      exact ⟨m, hm, rfl⟩
  refine ⟨fun p hp q hq => ?_, fun i _ => ?_⟩
  · obtain ⟨gs, hgs, hend, -⟩ := hgroups p hp
    obtain ⟨gs', hgs', hend', -⟩ := hgroups q hq
    rw [hgs, hgs']
    simp only [endpointsOf, Except.map, hend, hend']
  · -- the endpoint at the position of the transaction
    generalize hsorted : (M.candidates (acceptRole M.org validatorRole)).insertionSort endpointLe =
      sorted at hgroups
    have hperm : sorted.Perm (M.candidates (acceptRole M.org validatorRole)) :=
      hsorted ▸ List.perm_insertionSort _ _
    have hpos : 0 < sorted.length := by
      rw [hperm.length_eq]
      exact List.length_pos_of_ne_nil (candidates_ne_nil_of_mode_all hmode)
    have hlt : i % sorted.length < sorted.length := Nat.mod_lt _ hpos
    refine assigned_of_endpoint (e := sorted[i % sorted.length])
      (hperm.mem_iff.mp (List.getElem_mem hlt)) hacc hsees fun p hp => ?_
    obtain ⟨gs, hgs, hend, hsingle⟩ := hgroups p hp
    have hlen : gs.length = sorted.length := by simpa using congrArg List.length hend
    have hlt' : i % gs.length < gs.length := by rw [hlen]; exact hlt
    obtain ⟨m, hm, hg⟩ := hsingle _ (List.getElem_mem hlt')
    refine ⟨m, hm, ?_, ?_⟩
    · have hat := congrArg (·[i % sorted.length]?) hend
      simp only [List.getElem?_map, ← hlen, List.getElem?_eq_getElem hlt', hg, Option.map_some,
        List.map_cons, List.map_nil] at hat
      rw [List.getElem?_eq_getElem (hlen ▸ hlt)] at hat
      simpa [hlen] using hat
    · simp [getTxFilter, hgs, List.getElem?_eq_getElem hlt', hg, PeerGroup.containsLocal]

/-- Nobody is there to validate the block, and every peer takes all of it. -/
theorem agree_nobody_iff (hmode : mode M policy block = .nobody) :
    Agree M policy block disc ↔ M.orgPeers.length = 1 ∨ block.data.length = 0 := by
  have herr : ∀ p ∈ M.orgPeers, groupsFor policy (disc p) block =
      .error s!"there are no validators or committers for block {block.number}" := by
    intro p hp
    rw [(hsees p hp).groupsFor_eq hp, hmode]
  have hfilter : ∀ p ∈ M.orgPeers, ∀ i, getTxFilter policy (disc p) block i = true := by
    intro p hp i
    rw [getTxFilter, herr p hp]
  have hnodup : M.orgPeers.Nodup := (List.Nodup.of_map _ M.distinct).filter _
  constructor
  · intro hagree
    rcases Nat.eq_zero_or_pos block.data.length with hzero | hpos
    · exact .inr hzero
    · left
      obtain ⟨p, ⟨hp, -⟩, huniq⟩ := hagree.assigned 0 hpos
      have hall : ∀ q ∈ M.orgPeers, q = p := fun q hq => huniq q ⟨hq, hfilter q hq 0⟩
      match hlist : M.orgPeers with
      | [] =>
        rw [hlist] at hp
        exact absurd hp List.not_mem_nil
      | [q] => rfl
      | q :: r :: rest =>
        rw [hlist] at hall hnodup
        have hqr : q = r := (hall q (by simp)).trans (hall r (by simp)).symm
        simp [hqr] at hnodup
  · intro hor
    refine ⟨fun p hp q hq => by rw [herr p hp, herr q hq], fun i hi => ?_⟩
    rcases hor with hone | hzero
    · obtain ⟨p, hp⟩ := List.length_eq_one_iff.mp hone
      have hmem : p ∈ M.orgPeers := hp ▸ List.mem_singleton_self p
      refine ⟨p, ⟨hmem, hfilter p hmem i⟩, fun q hq => ?_⟩
      have hqmem := hq.1
      rw [hp] at hqmem
      exact List.mem_singleton.mp hqmem
    · omega

end

end

/-- **Who validates what.** For every membership, policy and block, and whatever the order in
which each peer of the organisation discovers the others: the peers compute the same groups
and every transaction is assigned to exactly one of them if, and only if, the choice is
settled by the roles: there is one candidate where one is to be selected. -/
theorem agree_iff_settled (M : Membership) (policy : Policy) (block : Block)
    (disc : Member → Discovery) (hsees : ∀ p ∈ M.orgPeers, M.Sees p (disc p)) :
    Agree M policy block disc ↔ Settled M policy block := by
  unfold Settled
  cases hmode : mode M policy block with
  | one accept k => exact agree_one_iff hsees hmode
  | all => exact iff_of_true (agree_all hsees hmode) trivial
  | nobody => exact agree_nobody_iff hsees hmode

def Membership.inOrder (M : Membership) (p : Member) : Discovery := ⟨M.members.erase p, p.asLocal⟩

def defaultPolicy : Policy := ⟨5, 30⟩

def threePeers : Membership where
  members := [⟨[65], [1], some [committerRole], false⟩, ⟨[67], [1], some [validatorRole], false⟩,
    ⟨[66], [1], some [validatorRole], false⟩]
  org := [1]
  distinct := by decide
  remote := by decide

/-- The two validators share a block of thirty transactions. -/
theorem agree_on_thirty_transactions :
    Agree threePeers defaultPolicy ⟨1000, List.replicate 30 [], []⟩ threePeers.inOrder :=
  (agree_iff_settled threePeers defaultPolicy ⟨1000, List.replicate 30 [], []⟩ threePeers.inOrder
    fun _ _ => ⟨rfl, .refl _⟩).mpr trivial

def twoPeers : Membership where
  members := [⟨[65], [1], some [committerRole, validatorRole], false⟩,
    ⟨[66], [1], some [committerRole, validatorRole], false⟩]
  org := [1]
  distinct := by decide
  remote := by decide

/-- Each of two committers sees the other one first: they compute different groups for a block
of one transaction, and the transaction is assigned to nobody. -/
theorem two_committers_disagree :
    (∀ p ∈ twoPeers.orgPeers, twoPeers.Sees p (twoPeers.inOrder p)) ∧
    twoPeers.orgPeers.map (fun p =>
      endpointsOf (groupsFor defaultPolicy (twoPeers.inOrder p) ⟨1000, [[]], []⟩)) =
      [.ok [[[66]]], .ok [[[65]]]] ∧
    twoPeers.orgPeers.map (fun p =>
      getTxFilter defaultPolicy (twoPeers.inOrder p) ⟨1000, [[]], []⟩ 0) = [false, false] ∧
    ¬ Agree twoPeers defaultPolicy ⟨1000, [[]], []⟩ twoPeers.inOrder := by
  refine ⟨fun _ _ => ⟨rfl, .refl _⟩, rfl, rfl, fun hagree => ?_⟩
  obtain ⟨p, ⟨hp, hpass⟩, -⟩ := hagree.assigned 0 (by decide)
  have hnone : ∀ p ∈ twoPeers.orgPeers,
      getTxFilter defaultPolicy (twoPeers.inOrder p) ⟨1000, [[]], []⟩ 0 = false := by
    decide
  rw [hnone p hp] at hpass
  cases hpass

end FabricPeerExt.Validation
