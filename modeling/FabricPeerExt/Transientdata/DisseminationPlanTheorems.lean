/-
FabricPeerExt.Transientdata.DisseminationPlanTheorems — is transient data stored by the endorsers
of its key (`complete_iff`)?

A key without endorsers is an error that takes the writes of all other keys with it, and a peer
that has a value for a key does not take a new one.
-/
import FabricPeerExt.Transientdata.DbStoreTheorems
import FabricPeerExt.Transientdata.DisseminationPlan
import FabricPeerExt.Transientdata.DisseminatorTheorems
import FabricPeerExt.Transientdata.TdStore
import Mathlib.Data.List.TakeWhile

namespace FabricPeerExt.Transientdata

open Lib
open PvtData (GoString Err CollectionPvtReadWriteSet)
open Collections
open Validation (Member PeerGroup Discovery Membership)

/-! ## §1 One key -/

section
variable {d : Disseminator}

theorem mem_appendEndorsersFromOrgs {h : Nat} : ∀ {orgs : List GoString} {es : PeerGroup},
    ∀ m ∈ d.appendEndorsersFromOrgs es h orgs, m ∈ es ∨ ∃ org ∈ orgs, m ∈ d.getEndorsers [org]
  | [], _, _, hm => .inl hm
  | org :: orgs, es, m, hm => by
    have hrest : ∀ {es'}, m ∈ d.appendEndorsersFromOrgs es' h orgs →
        m ∈ es' ∨ ∃ org' ∈ org :: orgs, m ∈ d.getEndorsers [org'] := by
      intro es' hm'
      refine (mem_appendEndorsersFromOrgs m hm').imp id fun ⟨org', horg', hin⟩ => ?_
      exact ⟨org', List.mem_cons_of_mem _ horg', hin⟩
    rw [Disseminator.appendEndorsersFromOrgs] at hm
    split at hm
    next => exact .inl hm
    next =>
      dsimp only at hm
      split at hm
      next => exact hrest hm
      next e he =>
        split at hm
        next => exact hrest hm
        next =>
          refine (hrest hm).elim (fun hin => ?_) .inr
          rcases List.mem_append.mp hin with hold | hnew
          · exact .inl hold
          · obtain rfl := List.mem_singleton.mp hnew
            exact .inr ⟨org, List.mem_cons_self,
              (List.mem_insertionSort _).mp (List.mem_of_getElem? he)⟩

theorem mem_chooseLoop {orgs : List GoString} {all : PeerGroup} :
    ∀ {fuel h : Nat} {es g : PeerGroup}, d.chooseLoop orgs all fuel h es = some g →
      (∀ m ∈ es, ∃ org ∈ orgs, m ∈ d.getEndorsers [org]) →
        ∀ m ∈ g, ∃ org ∈ orgs, m ∈ d.getEndorsers [org]
  | 0, _, _, _, hg, _ => by cases hg
  | fuel + 1, h, es, g, hg, hes => by
    have happ : ∀ m ∈ d.appendEndorsersFromOrgs es h orgs,
        ∃ org ∈ orgs, m ∈ d.getEndorsers [org] :=
      fun m hm => (mem_appendEndorsersFromOrgs m hm).elim (hes m) id
    rw [Disseminator.chooseLoop] at hg
    split at hg
    next =>
      dsimp only at hg
      split at hg
      next => exact Option.some.inj hg ▸ happ
      next => exact mem_chooseLoop hg happ
    next => exact Option.some.inj hg ▸ hes

/-- Whoever is returned is a member of the peer's view, of one of the chosen
organisations. -/
theorem mem_resolveEndorsers {fuel : Nat} {key : GoString} {g : PeerGroup}
    (h : d.resolveEndorsers fuel key = some (.ok g)) :
    ∀ m ∈ g, ∃ org ∈ d.chooseOrgs (getHash32 key), m ∈ d.getEndorsers [org] := by
  rw [Disseminator.resolveEndorsers, Disseminator.chooseEndorsers] at h
  split at h
  next => cases h
  next =>
    split at h
    next => cases h
    next =>
      obtain ⟨g', hloop, heq⟩ := Option.map_eq_some_iff.mp h
      obtain rfl := Except.ok.inj heq
      exact mem_chooseLoop hloop fun m hm => by cases hm

end

/-- A membership that its members see, and for every member its store and its configuration
of a transient data collection. -/
structure Channel (σ : Type) where
  membership : Membership
  ns : GoString
  coll : GoString
  ttl : Int
  store : Member → Store σ
  configs : Member → CollectionConfigs AccessPolicy
  policy : Member → AccessPolicy
  sees : ∀ p ∈ membership.members, membership.Sees p (store p).discovery
  fresh : ∀ p ∈ membership.members, (store p).puts = []
  config : ∀ p ∈ membership.members, ∃ config,
    getCollectionConfig [.colTransient] (configs p) ns coll = some config ∧
      config.timeToLive = .ok ttl ∧ config.policy = .ok (policy p)
  samePolicy : ∀ p ∈ membership.members, ∀ q ∈ membership.members,
    (policy p).maximumPeerCount = (policy q).maximumPeerCount ∧
      (policy p).memberOrgs.Perm (policy q).memberOrgs

namespace Channel

section
variable {σ : Type} (ch : Channel σ)

def disseminator (p : Member) : Disseminator := ⟨(ch.store p).discovery, ch.policy p⟩

def selects (p : Member) (endpoint key : GoString) : Bool :=
  ((ch.disseminator p).resolveEndorsers (ch.membership.members.length + 1) key).any fun res =>
    (groupOf res).any fun m => m.endpoint = endpoint

/-- The key has endorsers: some member is one, of an organisation that is chosen. -/
def endorsed (p : Member) (key : GoString) : Bool :=
  ch.membership.members.any
    (isEndorserOf ((ch.disseminator p).chooseOrgs (getHash32 key)))

def writesFor (p : Member) (endpoint : GoString) (ws : List KVWrite) : List KVWrite :=
  ws.filter fun w => !w.isDelete && ch.selects p endpoint w.key

structure Resolved (p : Member) (key : GoString) (res : Except Err PeerGroup) : Prop where
  ok : (∃ g, res = .ok g) ↔ ch.endorsed p key = true
  selects : ∀ endpoint, ch.selects p endpoint key = true ↔
    endpoint ∈ (groupOf res).map Member.endpoint
  isLocal : ∀ m ∈ groupOf res, m.isLocal = true ↔ m.endpoint = p.endpoint

variable {ch} {p q : Member} {fuel : Nat} {key : GoString}

theorem ok_iff_endorsed (hp : p ∈ ch.membership.members) {res : Except Err PeerGroup}
    (h : (ch.disseminator p).resolveEndorsers fuel key = some res) :
    (∃ g, res = .ok g) ↔ ch.endorsed p key = true := by
  have hlen := length_getEndorsers (d := ch.disseminator p) hp (ch.sees p hp)
    ((ch.disseminator p).chooseOrgs (getHash32 key))
  have hnil : (ch.disseminator p).getEndorsers
      ((ch.disseminator p).chooseOrgs (getHash32 key)) = [] ↔ ¬ ch.endorsed p key = true := by
    rw [← List.length_eq_zero_iff, hlen, List.length_eq_zero_iff, Membership.candidates,
      List.map_eq_nil_iff, List.filter_eq_nil_iff]
    simp [endorsed]
  rw [Disseminator.resolveEndorsers, Disseminator.chooseEndorsers] at h
  split at h
  next horgs =>
    cases h
    refine iff_of_false ?_ (hnil.mp ?_)
    · rintro ⟨g, hg⟩
      cases hg
    · rw [← List.length_eq_zero_iff, hlen, horgs, List.length_eq_zero_iff,
        Membership.candidates, List.map_eq_nil_iff, List.filter_eq_nil_iff]
      simp [isEndorserOf]
  next =>
    split at h
    next hnone =>
      cases h
      refine iff_of_false ?_ (hnil.mp hnone)
      rintro ⟨g, hg⟩
      cases hg
    next hsome =>
      obtain ⟨g, -, rfl⟩ := Option.map_eq_some_iff.mp h
      exact iff_of_true ⟨g, rfl⟩ (not_not.mp (hsome ∘ hnil.mpr))

/-- The endpoints that a member selects, in nobody's view in particular. -/
theorem exists_selectedEndpoints (ch : Channel σ) (p : Member) (key : GoString) :
    ∃ r, selectedEndpoints ch.membership (ch.disseminator p)
      (ch.membership.members.length + 1) key = some r := by
  obtain ⟨r, hr, -⟩ := @selectedEndpoints_spec ch.membership (ch.disseminator p) key
    (ch.membership.members.length + 1) (Nat.lt_succ_of_le (by
      rw [Membership.candidates, List.length_map]
      exact List.length_filter_le _ _))
  exact ⟨r, hr⟩

theorem selects_iff (hp : p ∈ ch.membership.members) {r : List Bytes}
    (hr : selectedEndpoints ch.membership (ch.disseminator p)
      (ch.membership.members.length + 1) key = some r) (endpoint : GoString) :
    ch.selects p endpoint key = true ↔ endpoint ∈ r := by
  obtain ⟨res, hres, rfl⟩ := resolveEndorsers_ends hp (ch.sees p hp) hr
  rw [Channel.selects, hres, Option.any_some, List.any_eq_true, List.mem_map]
  exact exists_congr fun m => and_congr_right fun _ => decide_eq_true_iff

/-- Whoever resolves endorsers, the same are selected. -/
theorem selects_congr (hp : p ∈ ch.membership.members) (hq : q ∈ ch.membership.members)
    (endpoint key : GoString) : ch.selects p endpoint key = ch.selects q endpoint key := by
  obtain ⟨r, hr⟩ := ch.exists_selectedEndpoints p key
  obtain ⟨hmax, horgs⟩ := ch.samePolicy p hp q hq
  have hr' := (@selectedEndpoints_congr _ (ch.disseminator p) (ch.disseminator q)
    hmax horgs _ key).symm.trans hr
  rw [Bool.eq_iff_iff, selects_iff hp hr, selects_iff hq hr']

/-- With fuel for all members `ResolveEndorsers` returns. -/
theorem exists_resolved (hp : p ∈ ch.membership.members)
    (hfuel : ch.membership.members.length < fuel) (key : GoString) :
    ∃ res, (ch.disseminator p).resolveEndorsers fuel key = some res ∧ ch.Resolved p key res := by
  obtain ⟨r, hr⟩ := ch.exists_selectedEndpoints p key
  obtain ⟨res, hres, hend⟩ :=
    resolveEndorsers_ends hp (ch.sees p hp) (selectedEndpoints_mono hfuel hr)
  refine ⟨res, hres, ok_iff_endorsed hp hres, fun e => by rw [selects_iff hp hr, hend],
    fun m hm => ?_⟩
  cases res with
  | error e => cases hm
  | ok g =>
    obtain ⟨org, _, horg⟩ := mem_resolveEndorsers hres m hm
    exact (ch.sees p hp).isLocal_iff hp horg

/-- A key that is not endorsed selects nobody. -/
theorem Resolved.endorsed_of_selects {res : Except Err PeerGroup} (h : ch.Resolved p key res)
    {endpoint : GoString} (hs : ch.selects p endpoint key = true) : ch.endorsed p key = true := by
  refine h.ok.mp ?_
  cases res with
  | error e => cases (h.selects endpoint).mp hs
  | ok g => exact ⟨g, rfl⟩

theorem Resolved.containsLocal {g : PeerGroup} (h : ch.Resolved p key (.ok g)) :
    g.containsLocal = ch.selects p p.endpoint key := by
  rw [Bool.eq_iff_iff, h.selects, PeerGroup.containsLocal, List.any_eq_true, List.mem_map]
  exact exists_congr fun m => and_congr_right fun hm => h.isLocal m hm

end

end Channel

/-! ## §2 The plan -/

def keysFor (m : GoMap GoString (List GoString)) (endpoint : GoString) : List GoString :=
  (m.lookup endpoint).getD []

theorem keysFor_appendKey (m : GoMap GoString (List GoString)) (endpoint key e : GoString) :
    keysFor (appendKey m endpoint key) e =
      if e = endpoint then keysFor m e ++ [key] else keysFor m e := by
  rw [keysFor, appendKey, GoMap.lookup_insert_eq]
  split
  next heq =>
    subst heq
    rfl
  next => rfl

theorem mem_keysFor_addToEndorsers {key e k : GoString} : ∀ {g : PeerGroup}
    {m : GoMap GoString (List GoString)}, k ∈ keysFor (addToEndorsers key m g) e ↔
      k ∈ keysFor m e ∨ k = key ∧ ∃ x ∈ g, x.isLocal = false ∧ x.endpoint = e
  | [], m => by simp [addToEndorsers]
  | x :: g, m => by
    rw [addToEndorsers, List.foldl_cons, ← addToEndorsers, mem_keysFor_addToEndorsers]
    cases hx : x.isLocal with
    | true => simp [hx]
    | false =>
      simp only [Bool.false_eq_true, if_false, keysFor_appendKey, List.mem_cons,
        exists_eq_or_imp, hx, true_and]
      by_cases he : e = x.endpoint
      · subst he
        simp only [if_true, List.mem_append, List.mem_singleton]
        tauto
      · simp only [if_neg he, Ne.symm he, false_or]

def NoEmpty (m : GoMap GoString (List GoString)) : Prop :=
  ∀ e, m.lookup e ≠ some []

theorem noEmpty_addToEndorsers {key : GoString} : ∀ {g : PeerGroup}
    {m : GoMap GoString (List GoString)}, NoEmpty m → NoEmpty (addToEndorsers key m g)
  | [], _, h => h
  | x :: g, m, h => by
    rw [addToEndorsers, List.foldl_cons, ← addToEndorsers]
    refine noEmpty_addToEndorsers fun e => ?_
    split
    next => exact h e
    next =>
      rw [appendKey, GoMap.lookup_insert_eq]
      split
      next => simp
      next => exact h e

theorem lookup_eq_none_iff {m : GoMap GoString (List GoString)} (h : NoEmpty m) {e : GoString} :
    m.lookup e = none ↔ keysFor m e = [] := by
  rw [keysFor]
  cases hl : m.lookup e with
  | none => simp
  | some keys =>
    have hne : keys ≠ [] := fun heq => h e (heq ▸ hl)
    simp [hne]

namespace Channel

section
variable {σ : Type} {ch : Channel σ} {p q : Member} {fuel : Nat} {proto : Marshaler KVRWSet}

section
variable (hp : p ∈ ch.membership.members) (hfuel : ch.membership.members.length < fuel)
include hp hfuel

/-- If all keys that are written have endorsers, the map has the keys that an endorser, the
local one apart, is selected for. -/
theorem getKeysByEndorser_ok :
    ∀ {ws : List KVWrite} {m : GoMap GoString (List GoString)}, NoEmpty m →
      (∀ w ∈ ws, w.isDelete = false → ch.endorsed p w.key = true) →
      ∃ m', (ch.disseminator p).getKeysByEndorser fuel m ws = some (.ok m') ∧ NoEmpty m' ∧
        ∀ e ≠ p.endpoint, ∀ k, k ∈ keysFor m' e ↔
          k ∈ keysFor m e ∨ ∃ w ∈ ws, w.isDelete = false ∧ w.key = k ∧ ch.selects p e k = true
  | [], m, hm, _ => ⟨m, rfl, hm, fun e _ k => by simp⟩
  | w :: ws, m, hm, hall => by
    have hrest : ∀ w ∈ ws, w.isDelete = false → ch.endorsed p w.key = true :=
      fun w' hw' => hall w' (List.mem_cons_of_mem w hw')
    rw [Disseminator.getKeysByEndorser]
    cases hdel : w.isDelete with
    | true =>
      obtain ⟨m', hget, hm', hkeys⟩ := getKeysByEndorser_ok hm hrest
      refine ⟨m', hget, hm', fun e he k => ?_⟩
      rw [hkeys e he k]
      simp [hdel]
    | false =>
      obtain ⟨res, hres, hresolved⟩ := exists_resolved hp hfuel w.key
      obtain ⟨g, rfl⟩ := hresolved.ok.mpr (hall w List.mem_cons_self hdel)
      have hremote : ∀ e ≠ p.endpoint, (∃ x ∈ g, x.isLocal = false ∧ x.endpoint = e) ↔
          ch.selects p e w.key = true := by
        intro e he
        rw [hresolved.selects, List.mem_map]
        refine exists_congr fun x => and_congr_right fun hx => and_iff_right_of_imp ?_
        rintro rfl
        exact Bool.eq_false_iff.mpr fun hlocal => he ((hresolved.isLocal x hx).mp hlocal)
      obtain ⟨m', hget, hm', hkeys⟩ :=
        getKeysByEndorser_ok (noEmpty_addToEndorsers (g := g) hm) hrest
      rw [hres]
      refine ⟨m', hget, hm', fun e he k => ?_⟩
      rw [hkeys e he k, mem_keysFor_addToEndorsers, hremote e he, or_assoc]
      simp only [List.mem_cons, exists_eq_or_imp, hdel, true_and]
      refine or_congr_right (or_congr_left ⟨?_, ?_⟩)
      · rintro ⟨rfl, hsel⟩
        exact ⟨rfl, hsel⟩
      · rintro ⟨rfl, hsel⟩
        exact ⟨rfl, hsel⟩

theorem getKeysByEndorser_error :
    ∀ {ws : List KVWrite} {m : GoMap GoString (List GoString)},
      (∃ w ∈ ws, w.isDelete = false ∧ ch.endorsed p w.key = false) →
      ∃ e, (ch.disseminator p).getKeysByEndorser fuel m ws = some (.error e)
  | [], m, h => by
    obtain ⟨w, hw, -⟩ := h
    cases hw
  | w :: ws, m, h => by
    simp only [List.mem_cons, exists_eq_or_imp] at h
    rw [Disseminator.getKeysByEndorser]
    cases hdel : w.isDelete with
    | true =>
      refine getKeysByEndorser_error (h.resolve_left fun hw => ?_)
      rw [hdel] at hw
      exact Bool.false_ne_true hw.1.symm
    | false =>
      obtain ⟨res, hres, hresolved⟩ := exists_resolved hp hfuel w.key
      rw [hres]
      cases res with
      | error e => exact ⟨_, rfl⟩
      | ok g =>
        refine getKeysByEndorser_error (h.resolve_left fun hw => ?_)
        exact Bool.false_ne_true (hw.2.symm.trans (hresolved.ok.mp ⟨g, rfl⟩))

end

/-- The protobuf library writes whatever part of the write set. -/
def Reencodes (proto : Marshaler KVRWSet) (ws : List KVWrite) : Prop :=
  ∀ ws', ws'.Sublist ws → ∃ bs, proto.marshal ⟨ws'⟩ = .ok bs

section
variable {ws : List KVWrite} (rwSet : CollectionPvtReadWriteSet)
  (hrw : proto.unmarshal rwSet.rwset = .ok ⟨ws⟩) (hproto : Reencodes proto ws)
include rwSet hrw hproto

theorem planForEndorser_ok (entry : GoString × List GoString) :
    ∃ plan, planForEndorser proto rwSet entry = .ok plan ∧ plan.endpoint = entry.1 ∧
      plan.rwSet.collectionName = rwSet.collectionName ∧ proto.unmarshal plan.rwSet.rwset =
        .ok ⟨ws.filter fun kvWrite => entry.2.contains kvWrite.key⟩ := by
  obtain ⟨bs, hbs⟩ := hproto (ws.filter fun kvWrite => entry.2.contains kvWrite.key)
    List.filter_sublist
  refine ⟨⟨entry.1, rwSet.collectionName, bs⟩, ?_, rfl, rfl, proto.unmarshal_marshal hbs⟩
  rw [planForEndorser, newRWSetForKeys, hrw]
  simp only [PvtData.liftErr, hbs]

/-- The plans for one endpoint: that of its entry. -/
theorem filter_collect
    (e : GoString) : ∀ {entries : List (GoString × List GoString)} {plans : List Plan},
      (entries.map Prod.fst).Nodup → collect (planForEndorser proto rwSet) entries = .ok plans →
      (plans.filter fun plan => plan.endpoint = e) = [] ∧ e ∉ entries.map Prod.fst ∨
        ∃ keys plan, (e, keys) ∈ entries ∧ planForEndorser proto rwSet (e, keys) = .ok plan ∧
          (plans.filter fun plan => plan.endpoint = e) = [plan]
  | [], plans, _, h => by
    cases h
    exact .inl ⟨rfl, List.not_mem_nil⟩
  | entry :: entries, plans, hnodup, h => by
    obtain ⟨plan, rest, hplan, hrest, rfl⟩ := collect_cons_ok.mp h
    obtain ⟨hnotin, hnodup'⟩ := List.nodup_cons.mp hnodup
    obtain ⟨plan', hplan', hend, -⟩ := planForEndorser_ok rwSet hrw hproto entry
    obtain rfl : plan = plan' := Except.ok.inj (hplan.symm.trans hplan')
    rw [List.filter_cons]
    rcases filter_collect e hnodup' hrest with
      ⟨hnil, hnot⟩ | ⟨keys, pl, hin, hpl, heq⟩
    · by_cases he : entry.1 = e
      · subst he
        exact .inr ⟨entry.2, plan, List.mem_cons_self, hplan, by simp [hend, hnil]⟩
      · refine .inl ⟨by simp [hend, he, hnil], ?_⟩
        rw [List.map_cons, List.mem_cons, not_or]
        exact ⟨Ne.symm he, hnot⟩
    · have hne : entry.1 ≠ e := by
        rintro rfl
        exact hnotin (List.mem_map.mpr ⟨_, hin, rfl⟩)
      exact .inr ⟨keys, pl, List.mem_cons_of_mem _ hin, hpl, by simp [hend, hne, heq]⟩

end

/-- The plans have one message for the member, with the writes that it is selected for, and
none if there are no such writes. -/
def Sends (proto : Marshaler KVRWSet) (ch : Channel σ) (p q : Member) (ws : List KVWrite)
    (plans : List Plan) : Prop :=
  if ch.writesFor p q.endpoint ws = [] then (plans.filter fun plan => plan.isEligible q) = []
  else ∃ plan kvRwSet, (plans.filter fun plan => plan.isEligible q) = [plan] ∧
    plan.rwSet.collectionName = ch.coll ∧ proto.unmarshal plan.rwSet.rwset = .ok kvRwSet ∧
    (kvRwSet.writes.filter fun w => !w.isDelete) = ch.writesFor p q.endpoint ws ∧
    ∀ w ∈ kvRwSet.writes, ch.selects p q.endpoint w.key = true

def sent : Except Err (List Plan) → List Plan
  | .error _ => []
  | .ok plans => plans

section
variable {bs : Bytes} {ws : List KVWrite} (hp : p ∈ ch.membership.members)
  (hfuel : ch.membership.members.length < fuel) (hrw : proto.unmarshal bs = .ok ⟨ws⟩)
include hp hfuel hrw

theorem computeDisseminationPlan_error
    (h : ∃ w ∈ ws, w.isDelete = false ∧ ch.endorsed p w.key = false) :
    ∃ e, (ch.disseminator p).computeDisseminationPlan fuel proto ⟨ch.coll, bs⟩ =
      some (.error e) := by
  obtain ⟨e, he⟩ := getKeysByEndorser_error (m := ∅) hp hfuel h
  refine ⟨e, ?_⟩
  simp only [Disseminator.computeDisseminationPlan, hrw, PvtData.liftErr, PvtData.wrapErr, he]

theorem computeDisseminationPlan_ok (hproto : Reencodes proto ws)
    (hall : ∀ w ∈ ws, w.isDelete = false → ch.endorsed p w.key = true) :
    ∃ plans, (ch.disseminator p).computeDisseminationPlan fuel proto ⟨ch.coll, bs⟩ =
      some (.ok plans) ∧ ∀ q : Member, q.endpoint ≠ p.endpoint → Sends proto ch p q ws plans := by
  obtain ⟨m, hget, hm, hkeys⟩ := getKeysByEndorser_ok (m := ∅) hp hfuel (fun e => by simp) hall
  have hplanned : ∀ entry ∈ m.toList, ∃ plan,
      planForEndorser proto ⟨ch.coll, bs⟩ entry = .ok plan := fun entry _ =>
    (planForEndorser_ok ⟨ch.coll, bs⟩ hrw hproto entry).imp fun _ h => h.1
  obtain ⟨plans, hplans⟩ := collect_succeeds hplanned
  refine ⟨plans, ?_, fun q hq => ?_⟩
  · simp only [Disseminator.computeDisseminationPlan, hrw, PvtData.liftErr, PvtData.wrapErr, hget,
      hplans]
  · -- a key of the endpoint is one of a write that the endpoint is selected for
    have hmem : ∀ k, k ∈ keysFor m q.endpoint ↔
        ∃ w ∈ ws, w.isDelete = false ∧ w.key = k ∧ ch.selects p q.endpoint k = true := by
      intro k
      rw [hkeys q.endpoint hq k]
      simp [keysFor]
    have hwrites : ch.writesFor p q.endpoint ws = [] ↔ keysFor m q.endpoint = [] := by
      rw [writesFor, List.filter_eq_nil_iff, List.eq_nil_iff_forall_not_mem]
      simp only [hmem]
      constructor
      · rintro h k ⟨w, hw, hdel, rfl, hsel⟩
        exact h w hw (by simp [hdel, hsel])
      · intro h w hw hboth
        simp only [Bool.and_eq_true, Bool.not_eq_true'] at hboth
        exact h w.key ⟨w, hw, hboth.1, rfl, hboth.2⟩
    have hkeysNodup := GoMap.nodup_toList m
    have hin : ∀ {keys}, (q.endpoint, keys) ∈ m.toList → keys = keysFor m q.endpoint := by
      intro keys hk
      rw [keysFor, GoMap.mem_toList.mp hk, Option.getD_some]
    simp only [Sends, Plan.isEligible]
    rcases filter_collect ⟨ch.coll, bs⟩ hrw hproto q.endpoint hkeysNodup hplans with
      ⟨hnil, hnot⟩ | ⟨keys, plan, hentry, hplan, heq⟩
    · have hnone : m.lookup q.endpoint = none := by
        rw [GoMap.map_fst_toList] at hnot
        exact AList.lookup_eq_none.mpr hnot
      rw [if_pos (hwrites.mpr ((lookup_eq_none_iff hm).mp hnone)), hnil]
    · have hsome : keysFor m q.endpoint ≠ [] := by
        intro hnil
        rw [← lookup_eq_none_iff hm, GoMap.mem_toList.mp hentry] at hnil
        cases hnil
      obtain ⟨plan', hplan', -, hcoll, hdec⟩ := planForEndorser_ok ⟨ch.coll, bs⟩ hrw
        hproto (q.endpoint, keys)
      obtain rfl : plan = plan' := Except.ok.inj (hplan.symm.trans hplan')
      obtain rfl := hin hentry
      rw [if_neg (hsome ∘ hwrites.mp)]
      refine ⟨plan, _, heq, hcoll, hdec, ?_, fun w hw => ?_⟩
      · rw [List.filter_filter, writesFor]
        refine List.filter_congr fun w hw => ?_
        rw [Bool.eq_iff_iff]
        simp only [Bool.and_eq_true, Bool.not_eq_true', List.contains_iff_mem, hmem]
        refine and_congr_right fun hdel => ⟨?_, fun hsel => ⟨w, hw, hdel, rfl, hsel⟩⟩
        rintro ⟨-, -, -, -, hsel⟩
        exact hsel
      · obtain ⟨-, -, -, -, hsel⟩ :=
          (hmem w.key).mp (List.contains_iff_mem.mp (List.mem_filter.mp hw).2)
        exact hsel

end

end

/-! ## §3 The store -/

section
variable {σ : Type} (C : TransientCache σ) (ch : Channel σ) (txID : GoString)

def cacheKey (w : KVWrite) : Key := ⟨ch.ns, ch.coll, w.key⟩

def accepted : σ → List KVWrite → List KVWrite
  | _, [] => []
  | c, w :: ws =>
    match C.get c (ch.cacheKey w) with
    | (c', some _) => accepted c' ws
    | (c', none) => w :: accepted (C.putWithExpire c' (ch.cacheKey w) w.value txID ch.ttl) ws

/-- The cache has no value for the keys of the writes, when they are put one after the
other. -/
def Free : σ → List KVWrite → Prop
  | _, [] => True
  | c, w :: ws => (C.get c (ch.cacheKey w)).2 = none ∧
      Free (C.putWithExpire (C.get c (ch.cacheKey w)).1 (ch.cacheKey w) w.value txID ch.ttl) ws

instance decidableFree : ∀ (c : σ) (ws : List KVWrite), Decidable (Free C ch txID c ws)
  | _, [] => inferInstanceAs (Decidable True)
  | c, w :: ws =>
    have := decidableFree (C.putWithExpire (C.get c (ch.cacheKey w)).1 (ch.cacheKey w) w.value txID
      ch.ttl) ws
    inferInstanceAs (Decidable (_ ∧ _))

variable {C ch txID}

theorem accepted_sublist : ∀ (c : σ) (ws : List KVWrite), (accepted C ch txID c ws).Sublist ws
  | _, [] => .slnil
  | c, w :: ws => by
    rw [accepted]
    split
    next => exact (accepted_sublist _ ws).cons w
    next => exact (accepted_sublist _ ws).cons_cons w

theorem accepted_eq_iff : ∀ {c : σ} {ws : List KVWrite},
    accepted C ch txID c ws = ws ↔ Free C ch txID c ws
  | _, [] => iff_of_true rfl trivial
  | c, w :: ws => by
    rw [accepted, Free]
    rcases hget : C.get c (ch.cacheKey w) with ⟨c', _ | v⟩
    · simp only [true_and, List.cons.injEq]
      exact accepted_eq_iff
    · refine iff_of_false (fun heq => ?_) fun h => (by cases h.1)
      have hle := (@accepted_sublist σ C ch txID c' ws).length_le
      have hlen := congrArg List.length heq
      simp only [List.length_cons] at hlen
      omega

variable {p : Member} {fuel : Nat}

/-- What is put of a write set: until the first key without endorsers, the writes that the
peer is selected for and has no value for. -/
theorem puts_persistWrites (hp : p ∈ ch.membership.members)
    (hfuel : ch.membership.members.length < fuel) : ∀ (ws : List KVWrite) (s : Store σ),
    ∃ s' res, Store.persistWrites C (ch.disseminator p) fuel txID ch.ns ch.coll ch.ttl ws s =
      some (s', res) ∧ s'.puts = s.puts ++ (accepted C ch txID s.cache (ch.writesFor p p.endpoint
        (ws.takeWhile fun w => ch.endorsed p w.key))).map fun w => (ch.cacheKey w, w.value)
  | [], s => ⟨s, .ok (), rfl, (List.append_nil _).symm⟩
  | w :: ws, s => by
    obtain ⟨res, hres, hresolved⟩ := exists_resolved hp hfuel w.key
    rw [Store.persistWrites, hres, List.takeWhile_cons]
    cases res with
    | error e =>
      have hnot : ¬ ch.endorsed p w.key = true := fun h => by
        obtain ⟨g, hg⟩ := hresolved.ok.mpr h
        cases hg
      rw [if_neg hnot]
      exact ⟨s, .error e, rfl, (List.append_nil _).symm⟩
    | ok g =>
      rw [if_pos (hresolved.ok.mp ⟨g, rfl⟩), writesFor, List.filter_cons, ← writesFor,
        ← hresolved.containsLocal]
      dsimp only
      cases hlocal : g.containsLocal with
      | false =>
        obtain ⟨s', res', hrun, hputs⟩ := puts_persistWrites hp hfuel ws s
        exact ⟨s', res', hrun, by simpa using hputs⟩
      | true =>
        obtain ⟨s', res', hrun, hputs⟩ :=
          puts_persistWrites hp hfuel ws (s.persistKVWrite C txID ch.ns ch.coll w ch.ttl)
        refine ⟨s', res', hrun, hputs.trans ?_⟩
        cases hdel : w.isDelete with
        | true => simp [Store.persistKVWrite, hdel]
        | false =>
          simp only [Store.persistKVWrite, hdel, Bool.false_eq_true, if_false, Bool.not_false,
            Bool.and_self, if_true, accepted, cacheKey]
          rcases hget : C.get s.cache ⟨ch.ns, ch.coll, w.key⟩ with ⟨c', _ | v⟩
          · simp
          · rfl

/-- `Persist` of a write set of the collection. -/
theorem persist_eq (hp : p ∈ ch.membership.members) {proto : Marshaler KVRWSet} {bs : Bytes}
    {kvRwSet : KVRWSet} (h : proto.unmarshal bs = .ok kvRwSet) :
    (ch.store p).persist C proto fuel txID [⟨ch.ns, [⟨ch.coll, bs⟩]⟩] (ch.configs p) =
      Store.persistWrites C (ch.disseminator p) fuel txID ch.ns ch.coll ch.ttl kvRwSet.writes
        (ch.store p) := by
  obtain ⟨config, hconfig, httl, hpolicy⟩ := ch.config p hp
  simp only [Store.persist, txPvtRwSetFromProtoMsg, collPvtRwSetFromProtoMsg, collect, h,
    PvtData.liftErr, PvtData.wrapErr, List.flatMap_cons, List.flatMap_nil, List.map_cons,
    List.map_nil, List.append_nil, Store.persistColls, Store.persistColl, hconfig, httl, hpolicy]
  rw [disseminator]
  cases Store.persistWrites C ⟨(ch.store p).discovery, ch.policy p⟩ fuel txID ch.ns ch.coll ch.ttl
      kvRwSet.writes (ch.store p) with
  | none => rfl
  | some r =>
    obtain ⟨s, res⟩ := r
    cases res with
    | error e => rfl
    | ok u => rfl

/-! ## §4 The peers of the channel -/

variable (C ch txID)

def receive (proto : Marshaler KVRWSet) (fuel : Nat) (q : Member) :
    List Plan → Store σ → Option (Store σ)
  | [], s => some s
  | plan :: plans, s =>
    match s.persist C proto fuel txID [⟨ch.ns, [plan.rwSet]⟩] (ch.configs q) with
    | none => none
    | some (s', _) => receive proto fuel q plans s'

/-- The store of a member after the dissemination: the endorsing peer persists the write set
itself, the others persist what is sent to them. -/
def storeAfter (proto : Marshaler KVRWSet) (fuel : Nat) (p : Member) (bs : Bytes)
    (plans : List Plan) (q : Member) : Option (Store σ) :=
  if q = p then
    ((ch.store p).persist C proto fuel txID [⟨ch.ns, [⟨ch.coll, bs⟩]⟩] (ch.configs p)).map Prod.fst
  else receive C ch txID proto fuel q (plans.filter fun plan => plan.isEligible q) (ch.store q)

/-- Every other member is sent the writes that it is selected for, and every member puts
exactly these into its cache. -/
def Complete (proto : Marshaler KVRWSet) (fuel : Nat) (p : Member) (bs : Bytes)
    (ws : List KVWrite) : Prop :=
  ∃ res, (ch.disseminator p).computeDisseminationPlan fuel proto ⟨ch.coll, bs⟩ = some res ∧
    ∀ q ∈ ch.membership.members, (q ≠ p → Sends proto ch p q ws (sent res)) ∧
      ∃ s, storeAfter C ch txID proto fuel p bs (sent res) q = some s ∧
        s.puts = (ch.writesFor p q.endpoint ws).map fun w => (ch.cacheKey w, w.value)

/-- Nothing is in the way: a key without endorsers takes no other write with it, neither in
the plan nor, from its place on, in the store of the endorsing peer; and no member has a
value for the key of a write that it is selected for. -/
structure Undisturbed (p : Member) (ws : List KVWrite) : Prop where
  plan : (∃ w ∈ ws, w.isDelete = false ∧ ch.endorsed p w.key = false) →
    ∀ q ∈ ch.membership.members, q ≠ p → ch.writesFor p q.endpoint ws = []
  own : ch.writesFor p p.endpoint (ws.dropWhile fun w => ch.endorsed p w.key) = []
  free : ∀ q ∈ ch.membership.members,
    Free C ch txID (ch.store q).cache (ch.writesFor p q.endpoint ws)

variable {C ch txID} {proto : Marshaler KVRWSet} {bs : Bytes} {ws : List KVWrite}

theorem writesFor_takeWhile_append (p : Member) (endpoint : GoString) (ws : List KVWrite) :
    ch.writesFor p endpoint (ws.takeWhile fun w => ch.endorsed p w.key) ++
      ch.writesFor p endpoint (ws.dropWhile fun w => ch.endorsed p w.key) =
        ch.writesFor p endpoint ws := by
  rw [writesFor, writesFor, writesFor, ← List.filter_append, List.takeWhile_append_dropWhile]

/-- The endorsing peer. -/
theorem puts_own_iff (hp : p ∈ ch.membership.members)
    (hfuel : ch.membership.members.length < fuel) (hrw : proto.unmarshal bs = .ok ⟨ws⟩)
    (plans : List Plan) :
    (∃ s, storeAfter C ch txID proto fuel p bs plans p = some s ∧
      s.puts = (ch.writesFor p p.endpoint ws).map fun w => (ch.cacheKey w, w.value)) ↔
    ch.writesFor p p.endpoint (ws.dropWhile fun w => ch.endorsed p w.key) = [] ∧
      Free C ch txID (ch.store p).cache (ch.writesFor p p.endpoint ws) := by
  obtain ⟨s, res, hrun, hputs⟩ := @puts_persistWrites σ C ch txID p fuel hp hfuel ws
    (ch.store p)
  rw [ch.fresh p hp, List.nil_append] at hputs
  have hafter : storeAfter C ch txID proto fuel p bs plans p = some s := by
    rw [storeAfter, if_pos rfl, persist_eq hp hrw, hrun, Option.map_some]
  have happend := @writesFor_takeWhile_append σ ch p p.endpoint ws
  have hsub := @accepted_sublist σ C ch txID (ch.store p).cache
    (ch.writesFor p p.endpoint (ws.takeWhile fun w => ch.endorsed p w.key))
  rw [hafter]
  constructor
  · rintro ⟨s', hs', hall⟩
    obtain rfl := Option.some.inj hs'
    have hlen := congrArg List.length (hputs.symm.trans hall)
    rw [List.length_map, List.length_map, ← happend, List.length_append] at hlen
    have hle := hsub.length_le
    have hdrop := List.length_eq_zero_iff.mp (show (ch.writesFor p p.endpoint
      (ws.dropWhile fun w => ch.endorsed p w.key)).length = 0 by omega)
    rw [hdrop, List.append_nil] at happend
    rw [happend] at hsub hlen
    rw [hdrop, List.length_nil, Nat.add_zero] at hlen
    exact ⟨hdrop, accepted_eq_iff.mp (hsub.eq_of_length hlen)⟩
  · rintro ⟨hdrop, hfree⟩
    rw [hdrop, List.append_nil] at happend
    rw [happend, accepted_eq_iff.mpr hfree] at hputs
    exact ⟨s, rfl, hputs⟩

/-- A member that gets its message, or none if it is not selected. -/
theorem puts_other_iff {q : Member} (hp : p ∈ ch.membership.members)
    (hq : q ∈ ch.membership.members) (hne : q ≠ p) (hfuel : ch.membership.members.length < fuel)
    {plans : List Plan} (hsends : Sends proto ch p q ws plans) :
    (∃ s, storeAfter C ch txID proto fuel p bs plans q = some s ∧
      s.puts = (ch.writesFor p q.endpoint ws).map fun w => (ch.cacheKey w, w.value)) ↔
    Free C ch txID (ch.store q).cache (ch.writesFor p q.endpoint ws) := by
  rw [storeAfter, if_neg hne]
  unfold Sends at hsends
  split at hsends
  next hnil =>
    rw [hnil, hsends]
    exact iff_of_true ⟨ch.store q, rfl, ch.fresh q hq⟩ trivial
  next =>
    obtain ⟨plan, kvRwSet, hplans, hcoll, hdec, hwrites, hsel⟩ := hsends
    obtain ⟨s, res, hrun, hputs⟩ := @puts_persistWrites σ C ch txID q fuel hq hfuel
      kvRwSet.writes (ch.store q)
    -- every key of the message selects the member, so all have endorsers
    have hend : kvRwSet.writes.takeWhile (fun w => ch.endorsed q w.key) = kvRwSet.writes := by
      refine List.takeWhile_eq_self_iff.mpr fun w hw => ?_
      obtain ⟨r, -, hresolved⟩ := exists_resolved hq hfuel w.key
      exact hresolved.endorsed_of_selects ((selects_congr hq hp _ _).trans (hsel w hw))
    have hfor : ch.writesFor q q.endpoint kvRwSet.writes = ch.writesFor p q.endpoint ws := by
      rw [← hwrites]
      refine List.filter_congr fun w hw => ?_
      rw [selects_congr hq hp, hsel w hw, Bool.and_true]
    rw [ch.fresh q hq, List.nil_append, hend, hfor] at hputs
    have hset : plan.rwSet = ⟨ch.coll, plan.rwSet.rwset⟩ := by rw [← hcoll]
    have hreceive : receive C ch txID proto fuel q [plan] (ch.store q) = some s := by
      rw [receive, hset, persist_eq hq hdec, hrun]
      rfl
    rw [hplans, hreceive]
    constructor
    · rintro ⟨s', hs', hall⟩
      obtain rfl := Option.some.inj hs'
      have hlen := congrArg List.length (hputs.symm.trans hall)
      rw [List.length_map, List.length_map] at hlen
      exact accepted_eq_iff.mp ((accepted_sublist _ _).eq_of_length hlen)
    · intro hfree
      rw [accepted_eq_iff.mpr hfree] at hputs
      exact ⟨s, rfl, hputs⟩

/-- The dissemination of a write set is complete if and only if nothing is in the way. -/
theorem complete_iff (C : TransientCache σ) (ch : Channel σ) (txID : GoString)
    (proto : Marshaler KVRWSet) {p : Member} (hp : p ∈ ch.membership.members) {bs : Bytes}
    {ws : List KVWrite} (hrw : proto.unmarshal bs = .ok ⟨ws⟩) (hproto : Reencodes proto ws)
    {fuel : Nat} (hfuel : ch.membership.members.length < fuel) :
    Complete C ch txID proto fuel p bs ws ↔ Undisturbed C ch txID p ws := by
  have hendpoint : ∀ q ∈ ch.membership.members, q ≠ p → q.endpoint ≠ p.endpoint :=
    fun q hq hne heq => hne (Membership.endpoint_inj hq hp heq)
  by_cases hall : ∀ w ∈ ws, w.isDelete = false → ch.endorsed p w.key = true
  · obtain ⟨plans, hplan, hsends⟩ := computeDisseminationPlan_ok hp hfuel hrw hproto hall
    constructor
    · rintro ⟨res, hres, hq⟩
      obtain rfl : Except.ok plans = res := Option.some.inj (hplan.symm.trans hres)
      obtain ⟨hown, hfree⟩ := (puts_own_iff hp hfuel hrw _).mp (hq p hp).2
      refine ⟨?_, hown, fun q hqm => ?_⟩
      · rintro ⟨w, hw, hdel, hend⟩
        exact absurd ((hall w hw hdel).symm.trans hend) (by decide)
      · by_cases hne : q = p
        · exact hne ▸ hfree
        · exact (puts_other_iff hp hqm hne hfuel (hsends q (hendpoint q hqm hne))).mp (hq q hqm).2
    · rintro ⟨-, hown, hfree⟩
      refine ⟨.ok plans, hplan, fun q hqm =>
        ⟨fun hne => hsends q (hendpoint q hqm hne), ?_⟩⟩
      by_cases hne : q = p
      · subst hne
        exact (puts_own_iff hp hfuel hrw _).mpr ⟨hown, hfree q hp⟩
      · exact (puts_other_iff hp hqm hne hfuel (hsends q (hendpoint q hqm hne))).mpr (hfree q hqm)
  · have hsome : ∃ w ∈ ws, w.isDelete = false ∧ ch.endorsed p w.key = false := by
      simp only [not_forall] at hall
      obtain ⟨w, hw, hdel, hend⟩ := hall
      exact ⟨w, hw, hdel, Bool.eq_false_iff.mpr hend⟩
    obtain ⟨e, hplan⟩ := computeDisseminationPlan_error hp hfuel hrw hsome
    -- nothing is sent, so nobody else may be selected
    have hsends : ∀ q, Sends proto ch p q ws [] ↔ ch.writesFor p q.endpoint ws = [] := by
      intro q
      unfold Sends
      split
      next h => exact iff_of_true rfl h
      next h =>
        refine iff_of_false ?_ h
        rintro ⟨_, _, hnil, _⟩
        cases hnil
    constructor
    · rintro ⟨res, hres, hq⟩
      obtain rfl : Except.error e = res := Option.some.inj (hplan.symm.trans hres)
      obtain ⟨hown, hfree⟩ := (puts_own_iff hp hfuel hrw _).mp (hq p hp).2
      refine ⟨fun _ q hqm hne => (hsends q).mp ((hq q hqm).1 hne), hown, fun q hqm => ?_⟩
      by_cases hne : q = p
      · exact hne ▸ hfree
      · exact (puts_other_iff hp hqm hne hfuel ((hq q hqm).1 hne)).mp (hq q hqm).2
    · rintro ⟨hothers, hown, hfree⟩
      have hnone := fun q hqm hne => (hsends q).mpr (hothers hsome q hqm hne)
      refine ⟨.error e, hplan, fun q hqm => ⟨hnone q hqm, ?_⟩⟩
      by_cases hne : q = p
      · subst hne
        exact (puts_own_iff hp hfuel hrw _).mpr ⟨hown, hfree q hp⟩
      · exact (puts_other_iff hp hqm hne hfuel (hnone q hqm hne)).mpr (hfree q hqm)

end

/-! ## A channel -/

def fourMembers : List Member :=
  [⟨[10], [1], some [endorserRole], false⟩, ⟨[11], [1], some [endorserRole], false⟩,
    ⟨[12], [1], some [endorserRole], false⟩, ⟨[13], [2], some [Validation.committerRole], false⟩]

theorem nodup_twoOrgs : ([[1], [2]] : List GoString).Nodup := by decide

def onePeerPolicy : AccessPolicy := ⟨[[1], [2]], nodup_twoOrgs, 1⟩

def emptyCache : Clocked Kv := ⟨⟨false, ∅, ∅⟩, ⟨[], .unix 1600000000, .unix 1600000000,
  .unix 1600000000⟩, []⟩

def fourChannel : Channel (Clocked Kv) where
  membership := ⟨fourMembers, [1], by decide, by decide⟩
  ns := [110]
  coll := [99]
  ttl := 5000000000
  store p := ⟨⟨fourMembers.erase p, p.asLocal⟩, emptyCache, []⟩
  configs _ := AList.insert [110] [some ⟨[99], .colTransient, .ok 5000000000, .ok onePeerPolicy⟩] ∅
  policy _ := onePeerPolicy
  sees _ _ := ⟨rfl, .refl _⟩
  fresh _ _ := rfl
  config _ _ := ⟨_, rfl, rfl, rfl⟩
  samePolicy _ _ _ _ := ⟨rfl, .refl _⟩

def firstMember : Member := ⟨[10], [1], some [endorserRole], false⟩

def kvRwSetCodec : SelfDelimiting KVRWSet :=
  ((PvtData.bytesCodec.pair (PvtData.boolCodec.pair PvtData.bytesCodec)).image
    (fun w : KVWrite => (w.key, w.isDelete, w.value)) (fun t => some ⟨t.1, t.2.1, t.2.2⟩)
    (fun _ => rfl)).listOf.image KVRWSet.writes (fun ws => some ⟨ws⟩) (fun _ => rfl)

theorem reencodes_kvRwSetCodec (ws : List KVWrite) : Reencodes kvRwSetCodec.toMarshaler ws :=
  fun _ _ => ⟨_, rfl⟩

def someWrites : List KVWrite :=
  [⟨[97], false, [1]⟩, ⟨[99], true, []⟩, ⟨[107], false, [2]⟩, ⟨[101], false, [3]⟩]

theorem complete_iff_someWrites :
    Complete (Cache.clocked (DbStore.asTransientDB DbStore.plainGob)) fourChannel [120]
      kvRwSetCodec.toMarshaler 5 firstMember (kvRwSetCodec.encode ⟨someWrites⟩) someWrites :=
  (complete_iff _ fourChannel [120] kvRwSetCodec.toMarshaler (p := firstMember) (by decide)
    (kvRwSetCodec.toMarshaler.unmarshal_marshal rfl) (reencodes_kvRwSetCodec someWrites)
    (by decide)).mpr ⟨by decide +kernel, by decide +kernel, by decide +kernel⟩

def deletionFirst : List KVWrite := [⟨[98], true, []⟩, ⟨[107], false, [2]⟩]

/-- The endorsing peer resolves the endorsers of the deleted key, and does not get to the write
that it is selected for. -/
theorem not_complete_deletionFirst :
    fourChannel.writesFor firstMember [10] deletionFirst = [⟨[107], false, [2]⟩] ∧
      ¬ Complete (Cache.clocked (DbStore.asTransientDB DbStore.plainGob)) fourChannel [120]
        kvRwSetCodec.toMarshaler 5 firstMember (kvRwSetCodec.encode ⟨deletionFirst⟩)
        deletionFirst := by
  refine ⟨by decide +kernel, ?_⟩
  rintro ⟨res, -, hall⟩
  obtain ⟨s, hs, hputs⟩ := (hall firstMember (by decide)).2
  rw [storeAfter, if_pos rfl] at hs
  have hnone := congrArg (Option.map Store.puts) hs
  rw [Option.map_some, hputs] at hnone
  revert hnone
  decide +kernel

end Channel

end FabricPeerExt.Transientdata
