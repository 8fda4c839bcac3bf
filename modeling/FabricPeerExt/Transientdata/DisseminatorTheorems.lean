/-
FabricPeerExt.Transientdata.DisseminatorTheorems — do all peers choose the same endorsers
(`resolveEndorsers_spec`)? By endpoints the loop is the round robin of `Lib/RoundRobin.lean`.
-/
import FabricPeerExt.Lib.RoundRobin
import FabricPeerExt.Lib.Sample
import Mathlib.Data.List.Rotate
import FabricPeerExt.Transientdata.Disseminator
import FabricPeerExt.Validation.PeerGroupsTheorems

namespace FabricPeerExt.Transientdata

open Lib
open PvtData (GoString Err)
open Validation (Member PeerGroup Discovery Membership IgnoresLocal)

/-! ## §1 Organisations -/

/-- Sorting byte strings forgets their order. -/
theorem insertionSort_perm {l l' : List Bytes} (h : l.Perm l') :
    (l.insertionSort fun a b => a ≤ b) = l'.insertionSort fun a b => a ≤ b := by
  refine @List.Perm.eq_of_pairwise _ (fun a b => a ≤ b) _ _ (fun _ _ _ _ => List.le_antisymm)
    (List.pairwise_insertionSort _ _) (List.pairwise_insertionSort _ _) ?_
  exact (List.perm_insertionSort _ _).trans (h.trans (List.perm_insertionSort _ _).symm)

/-- Different rounds have different positions, up to the number of positions. -/
theorem mod_ne_of_lt {h i j n : Nat} (hij : i < j) (hjn : j < n) : (h + i) % n ≠ (h + j) % n := by
  intro heq
  have hzero : (h + j - (h + i)) % n = 0 := Nat.sub_mod_eq_zero_of_mod_eq heq.symm
  rw [show h + j - (h + i) = j - i by omega, Nat.mod_eq_of_lt (by omega)] at hzero
  omega

section
variable {d d' : Disseminator}

/-- The organisations chosen, in byte order, are those from the position of the hash on and
then from the start. -/
theorem chooseOrgs_eq (h : UInt32) : d.chooseOrgs h =
    ((d.policy.memberOrgs.insertionSort fun org org' => org ≤ org').rotate h.toNat).take
      d.policy.maximumPeerCount.toNat := by
  have hlen := List.length_insertionSort (fun org org' => org ≤ org') d.policy.memberOrgs
  rw [Disseminator.chooseOrgs]
  generalize (d.policy.memberOrgs.insertionSort fun org org' => org ≤ org') = orgs at hlen ⊢
  have hnum : (min d.policy.maximumPeerCount d.policy.memberOrgs.length).toNat =
      ((orgs.rotate h.toNat).take d.policy.maximumPeerCount.toNat).length := by
    rw [List.length_take, List.length_rotate, hlen]
    omega
  rw [hnum]
  refine Eq.trans (List.filterMap_congr fun i hi => ?_) (filterMap_range_getElem? _)
  rw [List.mem_range, List.length_take, List.length_rotate] at hi
  rw [List.getElem?_take_of_lt (by omega), List.getElem?_rotate (by omega), Nat.add_comm]

theorem nodup_chooseOrgs (h : UInt32) : (d.chooseOrgs h).Nodup := by
  have hsorted : (d.policy.memberOrgs.insertionSort fun org org' => org ≤ org').Nodup :=
    (List.perm_insertionSort _ _).nodup_iff.mpr d.policy.distinct
  have hlen := List.length_insertionSort (fun org org' => org ≤ org') d.policy.memberOrgs
  rw [Disseminator.chooseOrgs, List.Nodup, List.pairwise_filterMap]
  refine List.Pairwise.imp_of_mem (fun {i j} _ hj hij => ?_) List.pairwise_lt_range
  intro org horg org' horg' heq
  subst heq
  obtain ⟨hi', horg⟩ := List.getElem?_eq_some_iff.mp horg
  obtain ⟨hj', horg'⟩ := List.getElem?_eq_some_iff.mp horg'
  have hlt := List.mem_range.mp hj
  refine mod_ne_of_lt hij ?_ ((hsorted.getElem_inj_iff).mp (horg.trans horg'.symm))
  rw [hlen]
  omega

theorem chooseOrgs_congr (hmax : d.policy.maximumPeerCount = d'.policy.maximumPeerCount)
    (horgs : d.policy.memberOrgs.Perm d'.policy.memberOrgs) (h : UInt32) :
    d.chooseOrgs h = d'.chooseOrgs h := by
  simp only [Disseminator.chooseOrgs, hmax, horgs.length_eq, insertionSort_perm horgs]

theorem chooseOrgs_eq_nil (h : UInt32) (hmax : d.policy.maximumPeerCount ≤ 0) :
    d.chooseOrgs h = [] := by
  have hzero : (min d.policy.maximumPeerCount d.policy.memberOrgs.length).toNat = 0 := by omega
  simp only [Disseminator.chooseOrgs, hzero, List.range_zero, List.filterMap_nil]

end

/-! ## §2 Endorsers of an organisation -/

def orgEndpoints (M : Membership) (org : GoString) : List Bytes :=
  (M.candidates (isEndorserOf [org])).insertionSort fun e e' => e ≤ e'

theorem ignoresLocal_isEndorserOf (orgs : List GoString) : IgnoresLocal (isEndorserOf orgs) :=
  fun _ => rfl

theorem endpoints_sort (g : PeerGroup) :
    (PeerGroup.sort g).map Member.endpoint =
      (g.map Member.endpoint).insertionSort fun e e' => e ≤ e' :=
  List.map_insertionSort (fun m m' : Member => m.endpoint ≤ m'.endpoint) (fun e e' => e ≤ e')
    Member.endpoint g fun _ _ _ _ => Iff.rfl

section
variable {M : Membership} {p : Member} {d : Disseminator}

theorem endpoints_endorsersForOrg (hp : p ∈ M.members) (hsees : M.Sees p d.discovery)
    (org : GoString) :
    (PeerGroup.sort (d.getEndorsers [org])).map Member.endpoint = orgEndpoints M org := by
  rw [endpoints_sort]
  exact insertionSort_perm (hsees.perm_candidates hp (ignoresLocal_isEndorserOf [org]))

theorem length_getEndorsers (hp : p ∈ M.members) (hsees : M.Sees p d.discovery)
    (orgs : List GoString) :
    (d.getEndorsers orgs).length = (M.candidates (isEndorserOf orgs)).length := by
  have hperm := hsees.perm_candidates hp (ignoresLocal_isEndorserOf orgs)
  rw [← hperm.length_eq, List.length_map]
  rfl

theorem isEndorserOf_cons (org : GoString) (orgs : List GoString) (m : Member) :
    isEndorserOf (org :: orgs) m = (isEndorserOf [org] m || isEndorserOf orgs m) := by
  simp [isEndorserOf, Bool.and_or_distrib_right]

/-- The endorsers of distinct organisations, one organisation after the other. -/
theorem perm_flatten_candidates (M : Membership) : ∀ {orgs : List GoString}, orgs.Nodup →
    (orgs.map fun org => M.candidates (isEndorserOf [org])).flatten.Perm
      (M.candidates (isEndorserOf orgs))
  | [], _ => by
    have hnone : M.members.filter (isEndorserOf []) = [] :=
      List.filter_eq_nil_iff.mpr fun m _ => by simp [isEndorserOf]
    rw [Membership.candidates, hnone]
    exact .nil
  | org :: orgs, hnodup => by
    obtain ⟨hnotin, hrest⟩ := List.nodup_cons.mp hnodup
    -- an endorser of the other organisations is none of this one
    have hother : ∀ m : Member, isEndorserOf orgs m = true → isEndorserOf [org] m = false := by
      intro m hm
      simp only [isEndorserOf, Bool.and_eq_true, List.contains_iff_mem] at hm
      have hne : m.mspID ≠ org := fun heq => hnotin (heq ▸ hm.1)
      simp [isEndorserOf, hne]
    have hsplit := List.filter_append_perm (isEndorserOf [org])
      (M.members.filter (isEndorserOf (org :: orgs)))
    have hfirst : (M.members.filter (isEndorserOf (org :: orgs))).filter (isEndorserOf [org]) =
        M.members.filter (isEndorserOf [org]) := by
      rw [List.filter_filter]
      refine List.filter_congr fun m _ => ?_
      rw [isEndorserOf_cons org orgs m]
      cases isEndorserOf [org] m <;> simp
    have hsecond : (M.members.filter (isEndorserOf (org :: orgs))).filter
        (fun m => !isEndorserOf [org] m) = M.members.filter (isEndorserOf orgs) := by
      rw [List.filter_filter]
      refine List.filter_congr fun m _ => ?_
      rw [isEndorserOf_cons org orgs m]
      cases hm : isEndorserOf orgs m with
      | true => simp [hother m hm]
      | false => cases isEndorserOf [org] m <;> simp
    rw [hfirst, hsecond] at hsplit
    rw [List.map_cons, List.flatten_cons]
    refine ((perm_flatten_candidates M hrest).append_left _).trans ?_
    rw [Membership.candidates, Membership.candidates, Membership.candidates, ← List.map_append]
    exact hsplit.map Member.endpoint

theorem perm_flatten_orgEndpoints (M : Membership) {orgs : List GoString} (h : orgs.Nodup) :
    (orgs.map (orgEndpoints M)).flatten.Perm (M.candidates (isEndorserOf orgs)) := by
  refine List.Perm.trans ?_ (perm_flatten_candidates M h)
  refine List.Perm.flatten_congr ?_
  exact List.forall₂_map_left_iff.mpr (List.forall₂_map_right_iff.mpr
    (List.forall₂_same.mpr fun org _ => List.perm_insertionSort _ _))

/-! ## §3 The loop -/

theorem turn_map {α β : Type} (f : α → β) (g : List α) (h : Nat) :
    turn (g.map f) h = (turn g h).map f := by
  rw [turn, turn, List.length_map, List.getElem?_map]

theorem contains_iff {g : PeerGroup} {m : Member} :
    contains g m = true ↔ m.endpoint ∈ g.map Member.endpoint := by
  rw [contains, List.any_eq_true, List.mem_map]
  exact exists_congr fun m' => and_congr_right fun _ => decide_eq_true_iff

/-- A round, by endpoints. -/
theorem endpoints_append (hp : p ∈ M.members) (hsees : M.Sees p d.discovery) {max : Nat}
    (hmax : d.policy.maximumPeerCount = max) (h : Nat) : ∀ (orgs : List GoString) (es : PeerGroup),
    (d.appendEndorsersFromOrgs es h orgs).map Member.endpoint =
      addRound max h (es.map Member.endpoint) (orgs.map (orgEndpoints M))
  | [], es => rfl
  | org :: orgs, es => by
    have hfull : (es.length : Int) = d.policy.maximumPeerCount ↔
        (es.map Member.endpoint).length = max := by
      rw [hmax, List.length_map, Int.natCast_inj]
    rw [Disseminator.appendEndorsersFromOrgs, List.map_cons, addRound,
      ← endpoints_endorsersForOrg hp hsees org, turn_map, turn]
    by_cases hf : (es.length : Int) = d.policy.maximumPeerCount
    · rw [if_pos hf, if_pos (hfull.mp hf)]
    · rw [if_neg hf, if_neg (hf ∘ hfull.mpr)]
      dsimp only
      generalize hturn : (PeerGroup.sort (d.getEndorsers [org]))[
        h % (PeerGroup.sort (d.getEndorsers [org])).length]? = o
      cases o with
      | none => exact endpoints_append hp hsees hmax h orgs es
      | some m =>
        dsimp only [Option.map_some]
        by_cases hc : contains es m = true
        · rw [if_pos hc, if_pos (contains_iff.mp hc)]
          exact endpoints_append hp hsees hmax h orgs es
        · rw [if_neg hc, if_neg (hc ∘ contains_iff.mpr), endpoints_append hp hsees hmax h orgs,
            List.map_append]
          rfl

/-- The loop, by endpoints. -/
theorem endpoints_chooseLoop (hp : p ∈ M.members) (hsees : M.Sees p d.discovery) {max : Nat}
    (hmax : d.policy.maximumPeerCount = max) (orgs : List GoString) (all : PeerGroup) :
    ∀ (fuel h : Nat) (es : PeerGroup),
      (d.chooseLoop orgs all fuel h es).map (List.map Member.endpoint) =
        rounds max all.length (orgs.map (orgEndpoints M)) fuel h (es.map Member.endpoint)
  | 0, _, _ => rfl
  | fuel + 1, h, es => by
    have happ := endpoints_append hp hsees hmax h orgs es
    have hlen : (d.appendEndorsersFromOrgs es h orgs).length =
        (addRound max h (es.map Member.endpoint) (orgs.map (orgEndpoints M))).length := by
      rw [← happ, List.length_map]
    have hlt : (es.length : Int) < d.policy.maximumPeerCount ↔
        (es.map Member.endpoint).length < max := by
      rw [hmax, List.length_map]
      omega
    rw [Disseminator.chooseLoop, rounds]
    by_cases hl : (es.length : Int) < d.policy.maximumPeerCount
    · rw [if_pos hl, if_pos (hlt.mp hl)]
      dsimp only
      rw [hlen]
      by_cases hall : all.length ≤
          (addRound max h (es.map Member.endpoint) (orgs.map (orgEndpoints M))).length
      · rw [if_pos hall, if_pos hall, Option.map_some, happ]
      · rw [if_neg hall, if_neg hall, endpoints_chooseLoop hp hsees hmax orgs all, happ]
    · rw [if_neg hl, if_neg (hl ∘ hlt.mpr), Option.map_some]

/-! ## §4 All peers choose the same -/

def groupOf : Except Err PeerGroup → PeerGroup
  | .error _ => []
  | .ok g => g

/-- Distinct endorsers of the organisations, as many as there are or as are wanted. -/
structure Selected (M : Membership) (orgs : List GoString) (max : Int) (group : PeerGroup) :
    Prop where
  distinct : (group.map Member.endpoint).Nodup
  endorsers : ∀ m ∈ group, ∃ m' ∈ M.members, m'.endpoint = m.endpoint ∧ isEndorserOf orgs m' = true
  count : group.length = (min max (M.members.filter (isEndorserOf orgs)).length).toNat

def selectedEndpoints (M : Membership) (d : Disseminator) (fuel : Nat) (key : GoString) :
    Option (List Bytes) :=
  let orgs := d.chooseOrgs (getHash32 key)
  if orgs = [] ∨ M.candidates (isEndorserOf orgs) = [] then some []
  else rounds d.policy.maximumPeerCount.toNat (M.candidates (isEndorserOf orgs)).length
    (orgs.map (orgEndpoints M)) fuel (getHash32 key).toNat []

theorem endpoints_resolveEndorsers (hp : p ∈ M.members) (hsees : M.Sees p d.discovery)
    (fuel : Nat) (key : GoString) :
    (d.resolveEndorsers fuel key).map (fun res => (groupOf res).map Member.endpoint) =
      selectedEndpoints M d fuel key := by
  have hlen := length_getEndorsers hp hsees (d.chooseOrgs (getHash32 key))
  rw [Disseminator.resolveEndorsers, selectedEndpoints]
  by_cases horgs : d.chooseOrgs (getHash32 key) = []
  · rw [if_pos horgs, if_pos (.inl horgs)]
    rfl
  · have hmax : d.policy.maximumPeerCount = d.policy.maximumPeerCount.toNat := by
      have hpos : ¬ d.policy.maximumPeerCount ≤ 0 := fun hle => horgs (chooseOrgs_eq_nil _ hle)
      omega
    rw [if_neg horgs, Disseminator.chooseEndorsers]
    by_cases hnone : d.getEndorsers (d.chooseOrgs (getHash32 key)) = []
    · have hcand : M.candidates (isEndorserOf (d.chooseOrgs (getHash32 key))) = [] := by
        rw [hnone] at hlen
        exact List.length_eq_zero_iff.mp hlen.symm
      rw [if_pos hnone, if_pos (.inr hcand)]
      rfl
    · have hcand : M.candidates (isEndorserOf (d.chooseOrgs (getHash32 key))) ≠ [] := by
        intro hnil
        rw [hnil] at hlen
        exact hnone (List.length_eq_zero_iff.mp hlen)
      rw [if_neg hnone, if_neg (not_or.mpr ⟨horgs, hcand⟩), Option.map_map, ← hlen,
        ← List.map_nil (f := Member.endpoint), ← endpoints_chooseLoop hp hsees hmax]
      rfl

/-- The choice ends, if there is fuel for a round more than there are endorsers. -/
theorem selectedEndpoints_spec (M : Membership) (d : Disseminator) (key : GoString) {fuel : Nat}
    (hfuel : (M.candidates (isEndorserOf (d.chooseOrgs (getHash32 key)))).length < fuel) :
    ∃ r, selectedEndpoints M d fuel key = some r ∧ r.Nodup ∧
      (∀ e ∈ r, e ∈ M.candidates (isEndorserOf (d.chooseOrgs (getHash32 key)))) ∧
      r.length = (min d.policy.maximumPeerCount
        (M.candidates (isEndorserOf (d.chooseOrgs (getHash32 key)))).length).toNat := by
  have hperm := perm_flatten_orgEndpoints M (@nodup_chooseOrgs d (getHash32 key))
  rw [selectedEndpoints]
  by_cases hnone : d.chooseOrgs (getHash32 key) = [] ∨
      M.candidates (isEndorserOf (d.chooseOrgs (getHash32 key))) = []
  · rw [if_pos hnone]
    have hcand : M.candidates (isEndorserOf (d.chooseOrgs (getHash32 key))) = [] := by
      rcases hnone with horgs | hcand
      · rw [horgs] at hperm ⊢
        exact hperm.symm.eq_nil
      · exact hcand
    refine ⟨[], rfl, List.nodup_nil, fun e he => (by cases he), ?_⟩
    rw [hcand, List.length_nil]
    omega
  · rw [if_neg hnone, ← hperm.length_eq]
    rw [← hperm.length_eq] at hfuel
    have hnodup : ((d.chooseOrgs (getHash32 key)).map (orgEndpoints M)).flatten.Nodup :=
      hperm.nodup_iff.mpr (Membership.nodup_candidates _)
    obtain ⟨r, hr, hchosen, hlen⟩ := @rounds_spec _ _ d.policy.maximumPeerCount.toNat _ hnodup
      _ hfuel (getHash32 key).toNat
    refine ⟨r, hr, hchosen.nodup, fun e he => hperm.mem_iff.mp (hchosen.mem e he), ?_⟩
    rw [hlen]
    omega

theorem selectedEndpoints_mono {d : Disseminator} {fuel fuel' : Nat} {key : GoString}
    {r : List Bytes} (hle : fuel ≤ fuel') (h : selectedEndpoints M d fuel key = some r) :
    selectedEndpoints M d fuel' key = some r := by
  rw [selectedEndpoints] at h ⊢
  split
  next hnone => rwa [if_pos hnone] at h
  next hnone =>
    rw [if_neg hnone] at h
    exact rounds_mono hle h

/-- The choice does not depend on who makes it. -/
theorem selectedEndpoints_congr {d d' : Disseminator}
    (hmax : d.policy.maximumPeerCount = d'.policy.maximumPeerCount)
    (horgs : d.policy.memberOrgs.Perm d'.policy.memberOrgs) (fuel : Nat) (key : GoString) :
    selectedEndpoints M d fuel key = selectedEndpoints M d' fuel key := by
  rw [selectedEndpoints, selectedEndpoints, chooseOrgs_congr hmax horgs, hmax]

/-- One peer's choice: it ends, and the endpoints are those that are chosen in nobody's view
in particular. -/
theorem resolveEndorsers_ends (hp : p ∈ M.members) (hsees : M.Sees p d.discovery)
    {key : GoString} {r : List Bytes} {fuel : Nat} (hr : selectedEndpoints M d fuel key = some r) :
    ∃ res, d.resolveEndorsers fuel key = some res ∧ (groupOf res).map Member.endpoint = r :=
  Option.map_eq_some_iff.mp ((endpoints_resolveEndorsers hp hsees fuel key).trans hr)

/-- There is an error exactly if the organisations chosen have no endorsers. -/
theorem resolveEndorsers_ok_iff (hp : p ∈ M.members) (hsees : M.Sees p d.discovery)
    {key : GoString} {fuel : Nat} {res : Except Err PeerGroup}
    (h : d.resolveEndorsers fuel key = some res) : (∃ g, res = .ok g) ↔
      ∃ m ∈ M.members, isEndorserOf (d.chooseOrgs (getHash32 key)) m = true := by
  have hlen := length_getEndorsers hp hsees (d.chooseOrgs (getHash32 key))
  have hany : (∃ m ∈ M.members, isEndorserOf (d.chooseOrgs (getHash32 key)) m = true) ↔
      d.getEndorsers (d.chooseOrgs (getHash32 key)) ≠ [] := by
    rw [← List.length_pos_iff, hlen, Membership.candidates, List.length_map, List.length_pos_iff,
      ne_eq, List.filter_eq_nil_iff]
    simp
  rw [hany]
  rw [Disseminator.resolveEndorsers] at h
  split at h
  next horgs =>
    cases h
    refine iff_of_false (by simp) (not_not.mpr (List.length_eq_zero_iff.mp ?_))
    rw [hlen, horgs, ← (perm_flatten_candidates M List.nodup_nil).length_eq]
    rfl
  next =>
    rw [Disseminator.chooseEndorsers] at h
    split at h
    next hnone =>
      cases h
      exact iff_of_false (by simp) (not_not.mpr hnone)
    next hsome =>
      obtain ⟨g, _, rfl⟩ := Option.map_eq_some_iff.mp h
      exact iff_of_true ⟨g, rfl⟩ hsome

/-- Two peers with the same membership, each of which sees the others in an order of its own,
and the same policy, whatever the order in which it delivers its organisations: the choice
ends for both, with distinct endorsers of the chosen organisations, as many as there are or
as are wanted, and they choose the same endpoints. There is an error exactly if the chosen
organisations have no endorsers. The chosen organisations are the first ones from the
position of the hash on. -/
theorem resolveEndorsers_spec (M : Membership) {p q : Member} (hp : p ∈ M.members)
    (hq : q ∈ M.members) {d d' : Disseminator} (hsees : M.Sees p d.discovery)
    (hsees' : M.Sees q d'.discovery)
    (hmax : d.policy.maximumPeerCount = d'.policy.maximumPeerCount)
    (horgs : d.policy.memberOrgs.Perm d'.policy.memberOrgs) (key : GoString) :
    let orgs := ((d.policy.memberOrgs.insertionSort fun org org' => org ≤ org').rotate
      (getHash32 key).toNat).take d.policy.maximumPeerCount.toNat
    d.chooseOrgs (getHash32 key) = orgs ∧ d'.chooseOrgs (getHash32 key) = orgs ∧
    ∃ n, ∀ fuel fuel', n ≤ fuel → n ≤ fuel' → ∃ res res',
      d.resolveEndorsers fuel key = some res ∧ d'.resolveEndorsers fuel' key = some res' ∧
      Selected M orgs d.policy.maximumPeerCount (groupOf res) ∧
      (groupOf res).map Member.endpoint = (groupOf res').map Member.endpoint ∧
      ((∃ g, res = .ok g) ↔ ∃ m ∈ M.members, isEndorserOf orgs m = true) ∧
      ((∃ g, res' = .ok g) ↔ ∃ m ∈ M.members, isEndorserOf orgs m = true) := by
  intro orgs
  have hchosen : d.chooseOrgs (getHash32 key) = orgs := chooseOrgs_eq _
  have hchosen' : d'.chooseOrgs (getHash32 key) = orgs :=
    (chooseOrgs_congr hmax horgs _).symm.trans hchosen
  refine ⟨hchosen, hchosen', ?_⟩
  obtain ⟨r, hr, hnodup, hmem, hlen⟩ := selectedEndpoints_spec M d key (Nat.lt_succ_self _)
  generalize Nat.succ _ = n at hr
  refine ⟨n, fun fuel fuel' hle hle' => ?_⟩
  have hr' : selectedEndpoints M d' n key = some r :=
    (selectedEndpoints_congr hmax horgs n key).symm.trans hr
  obtain ⟨res, hres, hendpoints⟩ := resolveEndorsers_ends hp hsees (selectedEndpoints_mono hle hr)
  obtain ⟨res', hres', hendpoints'⟩ :=
    resolveEndorsers_ends hq hsees' (selectedEndpoints_mono hle' hr')
  have hok := resolveEndorsers_ok_iff hp hsees hres
  have hok' := resolveEndorsers_ok_iff hq hsees' hres'
  rw [hchosen] at hok hmem hlen
  rw [hchosen'] at hok'
  refine ⟨res, res', hres, hres', ⟨?_, fun m hm => ?_, ?_⟩,
    hendpoints.trans hendpoints'.symm, hok, hok'⟩
  · rw [hendpoints]
    exact hnodup
  · have he : m.endpoint ∈ r := hendpoints ▸ List.mem_map_of_mem hm
    obtain ⟨m', hm', heq⟩ := List.mem_map.mp (hmem _ he)
    obtain ⟨hmember, hend⟩ := List.mem_filter.mp hm'
    exact ⟨m', hmember, heq, hend⟩
  · rw [← List.length_map (f := Member.endpoint), hendpoints, hlen,
      Membership.candidates, List.length_map]

end

/-! ## A channel -/

def threeMembers : List Member :=
  [⟨[10], [1], some [], false⟩, ⟨[11], [1], some [endorserRole], false⟩,
    ⟨[12], [2], some [endorserRole], false⟩]

def threeMembership : Membership :=
  ⟨threeMembers, [1], by decide, by decide⟩

def firstDisseminator : Disseminator :=
  ⟨⟨[⟨[12], [2], some [endorserRole], false⟩, ⟨[11], [1], some [endorserRole], false⟩],
    ⟨[10], [1], some [], true⟩⟩, ⟨[[1], [2]], by decide, 2⟩⟩

def thirdDisseminator : Disseminator :=
  ⟨⟨[⟨[10], [1], some [], false⟩, ⟨[11], [1], some [endorserRole], false⟩],
    ⟨[12], [2], some [endorserRole], true⟩⟩, ⟨[[2], [1]], by decide, 2⟩⟩

/-- Two of three peers, each with its own order of the members. -/
theorem resolveEndorsers_spec_three :
    ∃ n, ∀ fuel fuel', n ≤ fuel → n ≤ fuel' → ∃ g g',
      firstDisseminator.resolveEndorsers fuel [107] = some (.ok g) ∧
      thirdDisseminator.resolveEndorsers fuel' [107] = some (.ok g') ∧
      Selected threeMembership [[1], [2]] 2 g ∧
      g.map Member.endpoint = g'.map Member.endpoint := by
  obtain ⟨_, _, n, hspec⟩ := @resolveEndorsers_spec threeMembership ⟨[10], [1], some [], false⟩
    ⟨[12], [2], some [endorserRole], false⟩ (by decide) (by decide) firstDisseminator
    thirdDisseminator ⟨by decide, by decide⟩ ⟨by decide, by decide⟩ rfl (by decide) [107]
  have horgs : (([[1], [2]] : List GoString).rotate (getHash32 [107]).toNat).take 2 =
      [[1], [2]] := by decide +kernel
  refine ⟨n, fun fuel fuel' hle hle' => ?_⟩
  obtain ⟨res, res', hres, hres', hsel, heq, hok, hok'⟩ := hspec fuel fuel' hle hle'
  obtain ⟨g, rfl⟩ := hok.mpr (by decide +kernel)
  obtain ⟨g', rfl⟩ := hok'.mpr (by decide +kernel)
  exact ⟨g, g', hres, hres', horgs ▸ hsel, heq⟩

/-- The key "k" goes to one endorser of each organisation. -/
example : (firstDisseminator.resolveEndorsers 4 [107]).map
    (fun res => (groupOf res).map Member.endpoint) = some [[10], [12]] := by decide +kernel

end FabricPeerExt.Transientdata
