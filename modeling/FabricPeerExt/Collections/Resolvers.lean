/-
FabricPeerExt.Collections.Resolvers — which collection policy the peers that are asked for data
satisfy.

The retrievers of off-ledger and of transient data (`olretriever.go`, `transientdataretriever.go`)
keep a resolver for each collection, with the policy that the configurations
(`collconfigretriever.go`) had when it was made; the block publisher (`blockpublisher.go`) hands
over writes and events of blocks in order. A definition in `_lifecycle` comes without the event
that removes resolvers.
-/
import FabricPeerExt.Offledger.Disseminator
import FabricPeerExt.Transientdata.DisseminationPlanTheorems
import FabricPeerExt.Txn.DefinitionCache

namespace FabricPeerExt.Collections.Resolvers

open Lib
open PvtData (GoString)
open Transientdata (AccessPolicy isEndorserOf mem_resolveEndorsers)
open Txn (ChaincodeEvent upgradeEvent deployEvent upgradedChaincode lsccNamespace
  plainName)
open Validation (Member PeerGroup Discovery)

/-! ## §1 System -/

/-- A package of collection configurations: the names, and the access policies that are set
up from them. -/
abbrev Package := List (GoString × AccessPolicy)

/-- `cacheItems.policy`. -/
def Package.policy (configs : Package) (coll : GoString) : Option AccessPolicy :=
  (configs.find? fun item => item.1 = coll).map Prod.snd

/-- `fieldsPrefix`: "namespaces/fields/". -/
def fieldsStart : GoString :=
  [110, 97, 109, 101, 115, 112, 97, 99, 101, 115, 47, 102, 105, 101, 108, 100, 115, 47]

/-- `collectionsSuffix`: "/Collections". -/
def collectionsEnd : GoString := [47, 67, 111, 108, 108, 101, 99, 116, 105, 111, 110, 115]

def index (s sub : GoString) : Option Nat :=
  (List.range (s.length + 1)).find? fun i => sub.isPrefixOf (s.drop i)

/-- `getLifecycleChaincodeID`. -/
def getLifecycleChaincodeID (key : GoString) : GoString :=
  if fieldsStart.isPrefixOf key then
    match index (key.drop fieldsStart.length) collectionsEnd with
    | none => []
    | some i => (key.drop fieldsStart.length).take i
  else []

/-- What the block publisher hands over. -/
inductive Event where
  | lsccWrite (ccID : GoString) (ccp : Option Package)
  | lifecycleWrite (key : GoString)
  | ccEvent (event : ChaincodeEvent)

/-- The two retrievers. -/
inductive Kind where
  | offLedger
  | transient
  deriving DecidableEq

/-- `collKey`, with the kind of the retriever. -/
structure CollKey where
  kind : Kind
  ns : GoString
  coll : GoString
  deriving DecidableEq

/-- The packages committed in the lifecycle and by `lscc`, the events to be handled, the
cache of configurations, and the policies of the resolvers. -/
structure Channel where
  lifecycle : GoMap GoString Package
  lscc : GoMap GoString (Option Package)
  events : List Event
  cache : GoMap GoString Package
  resolvers : GoMap CollKey AccessPolicy

def Channel.start : Channel := ⟨∅, ∅, [], ∅, ∅⟩

namespace Channel

variable (ch : Channel)

/-- `getCollConfigPackage`: the lifecycle comes before `lscc`. Without a package there is a
panic or an error. -/
def committed (ns : GoString) : Option Package :=
  match ch.lifecycle.lookup ns with
  | some ccp => some ccp
  | none => (ch.lscc.lookup ns).join

def committedPolicy (ns coll : GoString) : Option AccessPolicy :=
  (ch.committed ns).bind fun configs => configs.policy coll

/-- `CollectionConfigRetriever.loadConfigs`, in one step. -/
def getConfigs (ns : GoString) : Option Package × Channel :=
  match ch.cache.lookup ns with
  | some configs => (some configs, ch)
  | none =>
    match ch.committed ns with
    | none => (none, ch)
    | some configs => (some configs, { ch with cache := ch.cache.insert ns configs })

/-- `CollectionConfigRetriever.Policy`. -/
def policy (ns coll : GoString) : Option AccessPolicy × Channel :=
  match ch.getConfigs ns with
  | (none, ch) => (none, ch)
  | (some configs, ch) => (configs.policy coll, ch)

/-- `retriever.getResolver` and `getOrCreateResolver`. -/
def getResolver (key : CollKey) : Option AccessPolicy × Channel :=
  match ch.resolvers.lookup key with
  | some resolver => (some resolver, ch)
  | none =>
    match ch.policy key.ns key.coll with
    | (none, ch) => (none, ch)
    | (some resolver, ch) =>
      (some resolver, { ch with resolvers := ch.resolvers.insert key resolver })

/-- A retrieval, as far as the policy of the resolver that chooses the peers: `isAuthorized`
and `getResolver`. -/
def retrieve (localMSPID : GoString) (key : CollKey) : Option AccessPolicy × Channel :=
  match ch.policy key.ns key.coll with
  | (none, ch) => (none, ch)
  | (some policy, ch) =>
    if localMSPID ∈ policy.memberOrgs then ch.getResolver key else (none, ch)

/-- `retriever.removeResolvers`. -/
def removeResolvers (ns : GoString) : Channel :=
  { ch with resolvers := ch.resolvers.eraseAll (ch.resolvers.keys.filter fun key => key.ns = ns) }

end Channel

/-- What can happen next. A chaincode is instantiated by `lscc` once and upgraded then; without
a package the one it has stays. -/
inductive Step where
  | deploy (name : GoString) (ccp : Option Package)
  | upgrade (name : GoString) (ccp : Option Package)
  | commitLifecycle (name : GoString) (ccp : Package)
  /-- Chaincode events, and writes of the lifecycle that define nothing. -/
  | publish (event : ChaincodeEvent)
  | writeLifecycle (key : GoString)
  | handleEvent
  | retrieve (key : CollKey)

/-- The names that the lifecycle accepts have no slash. -/
def validName (name : GoString) : Bool := name ≠ [] && !name.contains 47

section
variable (lifecycleEvent : Marshaler GoString) (localMSPID : GoString)

namespace Channel

/-- A transaction of `lscc`: the state, the write and the event. It is refused if the event
cannot be marshalled. -/
def commitLscc (ch : Channel) (eventName name : GoString) (ccp : Option Package) : Channel :=
  match lifecycleEvent.marshal name with
  | .error _ => ch
  | .ok payload => { ch with
      lscc := ch.lscc.insert name (ccp.or (ch.lscc.lookup name).join)
      events := ch.events ++
        [.lsccWrite name ccp, .ccEvent ⟨lsccNamespace, eventName, payload⟩] }

/-- `Publisher.handleLSCCWrite` and the handlers of the configurations. -/
def handle (ch : Channel) : Event → Channel
  | .lsccWrite _ none => ch
  | .lsccWrite ccID (some ccp) => { ch with cache := ch.cache.insert ccID ccp }
  | .lifecycleWrite key =>
    let ccID := getLifecycleChaincodeID key
    if ccID = [] then ch else { ch with cache := ch.cache.erase ccID }
  | .ccEvent event =>
    match upgradedChaincode lifecycleEvent event with
    | none => ch
    | some ns => ch.removeResolvers ns

def handleEvent (ch : Channel) : Channel :=
  match ch.events with
  | [] => ch
  | event :: events => { ch with events := events }.handle lifecycleEvent event

def step (ch : Channel) : Step → Channel
  | .deploy name ccp =>
    match ch.lscc.lookup name with
    | some _ => ch
    | none => ch.commitLscc lifecycleEvent deployEvent name ccp
  | .upgrade name ccp =>
    match ch.lscc.lookup name with
    | none => ch
    | some _ => ch.commitLscc lifecycleEvent upgradeEvent name ccp
  | .commitLifecycle name ccp =>
    if validName name then
      { ch with
        lifecycle := ch.lifecycle.insert name ccp
        events := ch.events ++ [.lifecycleWrite (fieldsStart ++ name ++ collectionsEnd)] }
    else ch
  | .publish event => { ch with events := ch.events ++ [.ccEvent event] }
  | .writeLifecycle key => { ch with events := ch.events ++ [.lifecycleWrite key] }
  | .handleEvent => ch.handleEvent lifecycleEvent
  | .retrieve key => (ch.retrieve localMSPID key).2

end Channel

/-! ## §2 Peers -/

def Asks (policy : AccessPolicy) (m : Member) : Kind → Prop
  | .offLedger => ∃ d : Offledger.Disseminator, d.policy = policy ∧
      ∃ r r' includePeer, m ∈ d.resolvePeersForRetrieval r r' includePeer
  | .transient => ∃ d : Transientdata.Disseminator, d.policy = policy ∧
      ∃ fuel key excludePeers g, m ∈ g ∧
        (d.resolveEndorsers fuel key = some (.ok g) ∨
          d.resolveAllEndorsersInOrgsForKey key excludePeers = .ok g ∨
          d.resolveAllEndorsers excludePeers = .ok g)

/-- Once all events are handled, whoever is asked satisfies the policy in force. -/
def InForce (ch : Channel) : Prop :=
  ch.events = [] → ∀ key policy, (ch.retrieve localMSPID key).1 = some policy →
    ∀ m, Asks policy m key.kind →
      ∃ inForce, ch.committedPolicy key.ns key.coll = some inForce ∧ m.mspID ∈ inForce.memberOrgs

variable {m : Member}

theorem mem_memberOrgs_of_candidates {d : Offledger.Disseminator} {role : Bytes}
    {includePeer : Member → Bool}
    (h : m ∈ d.candidates role d.resolveOrgsForRetrieval includePeer) :
    m.mspID ∈ d.policy.memberOrgs := by
  have horg : m.mspID ∈ d.resolveOrgsForRetrieval := by
    have hm := (List.mem_filter.mp h).2
    simp only [Bool.and_eq_true, List.contains_iff_mem] at hm
    exact hm.1.1.2
  rw [Offledger.Disseminator.resolveOrgsForRetrieval] at horg
  split at horg
  next => exact List.mem_of_mem_filter horg
  next => exact horg

theorem mem_memberOrgs_of_chooseOrgs {d : Transientdata.Disseminator} {h : UInt32}
    {org : GoString} (horg : org ∈ d.chooseOrgs h) : org ∈ d.policy.memberOrgs := by
  obtain ⟨i, -, hi⟩ := List.mem_filterMap.mp horg
  exact (List.mem_insertionSort _).mp (List.mem_of_getElem? hi)

/-- The filter that peers pass holds of every member that is found. -/
theorem passes_of_mem_getMembers {discovery : Discovery} {f : Member → Bool}
    (h : m ∈ discovery.getMembers f) : f m = true := by
  rw [Discovery.getMembers, ← List.filter_append] at h
  exact (List.mem_filter.mp h).2

theorem mspID_mem_of_isEndorserOf {orgs : List GoString}
    (h : isEndorserOf orgs m = true) : m.mspID ∈ orgs := by
  rw [isEndorserOf, Bool.and_eq_true, List.contains_iff_mem] at h
  exact h.1

theorem mspID_mem_of_getEndorsersExcept {d : Transientdata.Disseminator} {orgs : List GoString}
    {excludePeers : PeerGroup} (h : m ∈ d.getEndorsersExcept orgs excludePeers) :
    m.mspID ∈ orgs := by
  have hm := passes_of_mem_getMembers h
  rw [Bool.and_eq_true] at hm
  exact mspID_mem_of_isEndorserOf hm.2

/-- Whoever is asked is of a member organisation of the resolver's policy. -/
theorem Asks.mspID_mem {policy : AccessPolicy} {kind : Kind}
    (h : Asks policy m kind) : m.mspID ∈ policy.memberOrgs := by
  cases kind with
  | offLedger =>
    obtain ⟨d, rfl, r, r', includePeer, hm⟩ := h
    rw [d.resolvePeersForRetrieval_eq] at hm
    rcases mem_of_mem_topUp hm with hm | hm
    · exact mem_memberOrgs_of_candidates
        (((d.shuffles_filter_candidates _ _ _).perm r).mem_iff.mp hm)
    · exact mem_memberOrgs_of_candidates
        (((d.shuffles_filter_candidates _ _ _).perm r').mem_iff.mp hm)
  | transient =>
    obtain ⟨d, rfl, fuel, key, excludePeers, g, hm, hres | hres | hres⟩ := h
    · obtain ⟨org, horg, hin⟩ := mem_resolveEndorsers hres m hm
      have hmsp := mspID_mem_of_isEndorserOf (passes_of_mem_getMembers hin)
      rw [List.mem_singleton.mp hmsp]
      exact mem_memberOrgs_of_chooseOrgs horg
    · rw [Transientdata.Disseminator.resolveAllEndorsersInOrgsForKey] at hres
      split at hres
      next => cases hres
      next =>
        obtain rfl := Except.ok.inj hres
        exact mem_memberOrgs_of_chooseOrgs (mspID_mem_of_getEndorsersExcept hm)
    · rw [Transientdata.Disseminator.resolveAllEndorsers] at hres
      split at hres
      next => cases hres
      next =>
        obtain rfl := Except.ok.inj hres
        exact mspID_mem_of_getEndorsersExcept hm

/-! ## §3 Policies in force -/

def Event.drops (ns : GoString) : Event → Bool
  | .ccEvent event => upgradedChaincode lifecycleEvent event = some ns
  | _ => false

def Channel.upgradePending (ch : Channel) (ns : GoString) : Bool :=
  ch.events.any (Event.drops lifecycleEvent ns)

/-- A resolver of this policy does not ask others than those that satisfy the policy of a
collection, if the local peer has access to it. -/
def Fits (policy : AccessPolicy) (inForce : Option AccessPolicy) : Prop :=
  ∀ p, inForce = some p → localMSPID ∈ p.memberOrgs → policy.memberOrgs ⊆ p.memberOrgs

/-- A definition of the lifecycle fits the resolvers of the chaincode, or these are going to
be removed; the same holds of the policy of a resolver that is made from the cache; `lscc`
does not define collections of a chaincode that has other ones in the lifecycle. -/
def Careful (ch : Channel) : Step → Prop
  | .deploy name (some ccp) | .upgrade name (some ccp) =>
    ∀ ccp', ch.lifecycle.lookup name = some ccp' → ccp' = ccp
  | .commitLifecycle name ccp => ∀ key policy, key.ns = name →
      ch.resolvers.lookup key = some policy →
        Fits localMSPID policy (ccp.policy key.coll) ∨
          ch.upgradePending lifecycleEvent name = true
  | .retrieve key => ∀ configs policy, ch.resolvers.lookup key = none →
      ch.cache.lookup key.ns = some configs → configs.policy key.coll = some policy →
        localMSPID ∈ policy.memberOrgs →
          Fits localMSPID policy (ch.committedPolicy key.ns key.coll) ∨
            ch.upgradePending lifecycleEvent key.ns = true
  | _ => True

def Event.cached (ns : GoString) (entry : Option Package) : Event → Option Package
  | .lsccWrite ccID (some ccp) => if ns = ccID then some ccp else entry
  | .lifecycleWrite key =>
    if getLifecycleChaincodeID key ≠ [] ∧ ns = getLifecycleChaincodeID key then none else entry
  | _ => entry

def Channel.settled (ch : Channel) (ns : GoString) : Option Package :=
  ch.events.foldl (Event.cached ns) (ch.cache.lookup ns)

/-- The cache is going to have what is committed, if anything; there are entries and resolvers
only of what is committed; a resolver fits, or is going to be removed. -/
structure Sound (ch : Channel) : Prop where
  settled : ∀ ns, ch.settled ns = none ∨ ch.settled ns = ch.committed ns
  cached : ∀ ns, ch.cache.lookup ns ≠ none → ch.committed ns ≠ none
  written : ∀ ns ccp, .lsccWrite ns (some ccp) ∈ ch.events → ch.committed ns ≠ none
  resolved : ∀ key policy, ch.resolvers.lookup key = some policy → ch.committed key.ns ≠ none
  fits : ∀ key policy, ch.resolvers.lookup key = some policy →
    Fits localMSPID policy (ch.committedPolicy key.ns key.coll) ∨
      ch.upgradePending lifecycleEvent key.ns = true

end

section
variable {lifecycleEvent : Marshaler GoString} {localMSPID : GoString} {ch ch' : Channel}

theorem fits_self (policy : AccessPolicy) : Fits localMSPID policy (some policy) := by
  rintro p hp -
  rw [Option.some.inj hp]
  exact List.Subset.refl _

/-! ### Names in the keys of the lifecycle -/

variable {key : CollKey} {name : GoString}

theorem index_collectionsEnd (h : 47 ∉ name) :
    index (name ++ collectionsEnd) collectionsEnd = some name.length := by
  rw [index, List.find?_range_eq_some]
  refine ⟨?_, ?_, fun i hi => ?_⟩
  · simp
  · rw [List.length_append]
    exact List.mem_range.mpr (by omega)
  · have hhead : (name ++ collectionsEnd).drop i =
        name[i] :: (name ++ collectionsEnd).drop (i + 1) := by
      rw [List.drop_eq_getElem_cons (by rw [List.length_append]; omega),
        List.getElem_append_left hi]
    have hne : 47 ≠ name[i] := fun he => h (he ▸ List.getElem_mem hi)
    rw [hhead]
    simp [collectionsEnd, List.isPrefixOf, hne]

/-- The name is found again in the key under which its collections are written. -/
theorem getLifecycleChaincodeID_key (h : validName name = true) :
    name ≠ [] ∧ getLifecycleChaincodeID (fieldsStart ++ name ++ collectionsEnd) = name := by
  simp only [validName, Bool.and_eq_true, decide_eq_true_eq, Bool.not_eq_true',
    List.contains_eq_mem, decide_eq_false_iff_not] at h
  refine ⟨h.1, ?_⟩
  have hstart : fieldsStart.isPrefixOf (fieldsStart ++ (name ++ collectionsEnd)) = true := by
    simp
  rw [getLifecycleChaincodeID, List.append_assoc, if_pos hstart, List.drop_left,
    index_collectionsEnd h.2]
  exact List.take_left

/-! ### Events -/

/-- What is committed stays when an event reaches the cache and the retrievers. -/
theorem handle_spec (ch : Channel) (event : Event) :
    (ch.handle lifecycleEvent event).lifecycle = ch.lifecycle ∧
    (ch.handle lifecycleEvent event).lscc = ch.lscc ∧
    (ch.handle lifecycleEvent event).events = ch.events ∧
    (∀ ns, (ch.handle lifecycleEvent event).cache.lookup ns =
      event.cached ns (ch.cache.lookup ns)) ∧
    ∀ key, (ch.handle lifecycleEvent event).resolvers.lookup key =
      if event.drops lifecycleEvent key.ns then none else ch.resolvers.lookup key := by
  cases event with
  | lsccWrite ccID ccp =>
    cases ccp with
    | none => exact ⟨rfl, rfl, rfl, fun _ => rfl, fun _ => rfl⟩
    | some ccp => exact ⟨rfl, rfl, rfl, fun ns => GoMap.lookup_insert_eq .., fun _ => rfl⟩
  | lifecycleWrite key =>
    by_cases hid : getLifecycleChaincodeID key = []
    · simp [Channel.handle, Event.cached, Event.drops, hid]
    · simp [Channel.handle, Event.cached, Event.drops, hid, GoMap.lookup_erase_eq]
  | ccEvent event =>
    cases hns : upgradedChaincode lifecycleEvent event with
    | none => simp [Channel.handle, Event.cached, Event.drops, hns]
    | some ns =>
      simp only [Channel.handle, hns, Channel.removeResolvers, Event.cached, Event.drops,
        GoMap.lookup_eraseAll, Option.some.injEq, List.mem_filter, decide_eq_true_eq]
      refine ⟨trivial, trivial, trivial, fun _ => trivial, fun key => ?_⟩
      by_cases hkey : ns = key.ns
      · by_cases hmem : key ∈ ch.resolvers.keys
        · rw [if_pos ⟨hmem, hkey.symm⟩, if_pos hkey]
        · rw [if_neg fun hk => hmem hk.1, if_pos hkey]
          exact AList.lookup_eq_none.mpr hmem
      · rw [if_neg fun hk => hkey hk.2.symm, if_neg hkey]

/-- Two entries come to the same, or stay. -/
theorem foldl_cached (ns : GoString) (events : List Event) :
    (∀ entry, events.foldl (Event.cached ns) entry = entry) ∨
      ∀ entry entry', events.foldl (Event.cached ns) entry =
        events.foldl (Event.cached ns) entry' := by
  induction events with
  | nil => exact .inl fun _ => rfl
  | cons event events ih =>
    refine ih.elim (fun hid => ?_) fun hconst => .inr fun entry entry' => hconst _ _
    simp only [List.foldl_cons, hid]
    cases event with
    | lsccWrite ccID ccp =>
      cases ccp with
      | none => exact .inl fun _ => rfl
      | some ccp => by_cases hns : ns = ccID <;> simp [Event.cached, hns]
    | lifecycleWrite key =>
      by_cases hns : getLifecycleChaincodeID key ≠ [] ∧ ns = getLifecycleChaincodeID key
      · exact .inr fun _ _ => by simp only [Event.cached, if_pos hns]
      · exact .inl fun _ => by simp only [Event.cached, if_neg hns]
    | ccEvent event => exact .inl fun _ => rfl

theorem Sound.handleEvent (h : Sound lifecycleEvent localMSPID ch) :
    Sound lifecycleEvent localMSPID (ch.handleEvent lifecycleEvent) := by
  cases hev : ch.events with
  | nil =>
    have hsame : ch.handleEvent lifecycleEvent = ch := by simp only [Channel.handleEvent, hev]
    rwa [hsame]
  | cons event events =>
    have hspec := @handle_spec lifecycleEvent { ch with events := events } event
    have hnext : ch.handleEvent lifecycleEvent =
        { ch with events := events }.handle lifecycleEvent event := by
      simp only [Channel.handleEvent, hev]
    rw [← hnext] at hspec
    generalize ch.handleEvent lifecycleEvent = ch' at *
    obtain ⟨hlifecycle, hlscc, hevents, hcache, hres⟩ := hspec
    have hcomm : ∀ ns, ch'.committed ns = ch.committed ns := fun ns => by
      rw [Channel.committed, Channel.committed, hlifecycle, hlscc]
    have hpolicy : ∀ ns coll, ch'.committedPolicy ns coll = ch.committedPolicy ns coll :=
      fun ns coll => by rw [Channel.committedPolicy, Channel.committedPolicy, hcomm]
    have hold : ∀ {key policy}, ch'.resolvers.lookup key = some policy →
        event.drops lifecycleEvent key.ns = false ∧ ch.resolvers.lookup key = some policy := by
      intro key policy hk
      rw [hres] at hk
      split at hk
      next => cases hk
      next hno => exact ⟨Bool.eq_false_iff.mpr hno, hk⟩
    refine ⟨fun ns => ?_, fun ns hne => ?_, fun ns ccp hmem => ?_, fun key policy hk => ?_,
      fun key policy hk => ?_⟩
    · have hset : ch'.settled ns = ch.settled ns := by
        rw [Channel.settled, Channel.settled, hev, hevents, hcache, List.foldl_cons]
      rw [hset, hcomm]
      exact h.settled ns
    · rw [hcomm]
      rw [hcache] at hne
      cases event with
      | lsccWrite ccID ccp =>
        cases ccp with
        | none => exact h.cached ns hne
        | some ccp =>
          by_cases hns : ns = ccID
          · exact h.written ns ccp (by rw [hev, hns]; exact List.mem_cons_self)
          · exact h.cached ns (by simpa only [Event.cached, if_neg hns] using hne)
      | lifecycleWrite key =>
        refine h.cached ns fun hnone => hne ?_
        rw [hnone, Event.cached, ite_self]
      | ccEvent event => exact h.cached ns hne
    · rw [hcomm]
      rw [hevents] at hmem
      exact h.written ns ccp (by rw [hev]; exact List.mem_cons_of_mem _ hmem)
    · rw [hcomm]
      exact h.resolved key policy (hold hk).2
    · rw [hpolicy]
      refine (h.fits key policy (hold hk).2).imp id fun hp => ?_
      rw [Channel.upgradePending, hev, List.any_cons, (hold hk).1, Bool.false_or] at hp
      rwa [Channel.upgradePending, hevents]

/-! ### Commits -/

/-- Nothing but the committed packages changes, and events are added. -/
theorem Sound.commit (h : Sound lifecycleEvent localMSPID ch) {added : List Event}
    (hcache : ch'.cache = ch.cache) (hres : ch'.resolvers = ch.resolvers)
    (hevents : ch'.events = ch.events ++ added)
    (hkeeps : ∀ ns, ch.committed ns ≠ none → ch'.committed ns ≠ none)
    (hsettled : ∀ ns, added.foldl (Event.cached ns) (ch.settled ns) = none ∨
      added.foldl (Event.cached ns) (ch.settled ns) = ch'.committed ns)
    (hwritten : ∀ ns ccp, .lsccWrite ns (some ccp) ∈ added → ch'.committed ns ≠ none)
    (hfits : ∀ key policy, ch.resolvers.lookup key = some policy →
      ch'.committed key.ns = ch.committed key.ns ∨
        Fits localMSPID policy (ch'.committedPolicy key.ns key.coll) ∨
          ch'.upgradePending lifecycleEvent key.ns = true) :
    Sound lifecycleEvent localMSPID ch' where
  settled ns := by
    rw [Channel.settled, hevents, hcache, List.foldl_append]
    exact hsettled ns
  cached ns hne := hkeeps ns (h.cached ns (hcache ▸ hne))
  written ns ccp hmem := by
    rw [hevents, List.mem_append] at hmem
    exact hmem.elim (fun hold => hkeeps ns (h.written ns ccp hold)) (hwritten ns ccp)
  resolved key policy hk := hkeeps _ (h.resolved key policy (hres ▸ hk))
  fits key policy hk := by
    rw [hres] at hk
    refine (hfits key policy hk).elim (fun hsame => ?_) id
    rw [Channel.committedPolicy, hsame]
    refine (h.fits key policy hk).imp id fun hp => ?_
    rw [Channel.upgradePending] at hp ⊢
    rw [hevents, List.any_append, hp, Bool.true_or]

/-- Events that concern no definition. -/
theorem Sound.publish (h : Sound lifecycleEvent localMSPID ch) {event : Event}
    (hevent : ∀ ns entry, event.cached ns entry = none ∨ event.cached ns entry = entry)
    (hno : ∀ ns ccp, event ≠ .lsccWrite ns (some ccp)) :
    Sound lifecycleEvent localMSPID { ch with events := ch.events ++ [event] } := by
  refine h.commit rfl rfl rfl (fun _ hne => hne) (fun ns => ?_) (fun ns ccp hmem => ?_)
    fun key policy _ => .inl rfl
  · rw [List.foldl_cons, List.foldl_nil]
    rcases hevent ns (ch.settled ns) with he | he
    · exact .inl he
    · rw [he]
      exact h.settled ns
  · exact absurd (List.mem_singleton.mp hmem).symm (hno ns ccp)

theorem committed_insert_lifecycle (ch : Channel) (name ns : GoString) (ccp : Package)
    (events : List Event) :
    { ch with lifecycle := ch.lifecycle.insert name ccp, events := events }.committed ns =
      if ns = name then some ccp else ch.committed ns := by
  rw [Channel.committed, GoMap.lookup_insert_eq]
  split
  next hc => split at hc <;> simp_all [Channel.committed]
  next hc => split at hc <;> simp_all [Channel.committed]

theorem Sound.commitLifecycle (h : Sound lifecycleEvent localMSPID ch)
    {ccp : Package} (hname : validName name = true)
    (hok : Careful lifecycleEvent localMSPID ch (.commitLifecycle name ccp)) :
    Sound lifecycleEvent localMSPID { ch with
      lifecycle := ch.lifecycle.insert name ccp
      events := ch.events ++ [.lifecycleWrite (fieldsStart ++ name ++ collectionsEnd)] } := by
  obtain ⟨hne, hid⟩ := getLifecycleChaincodeID_key hname
  refine h.commit rfl rfl rfl (fun ns hns => ?_) (fun ns => ?_) (fun ns ccp hmem => ?_)
    fun key policy hk => ?_
  · rw [committed_insert_lifecycle]
    split
    next => exact Option.some_ne_none _
    next => exact hns
  · rw [committed_insert_lifecycle, List.foldl_cons, List.foldl_nil, Event.cached, hid]
    by_cases hns : ns = name
    · exact .inl (if_pos ⟨hne, hns⟩)
    · rw [if_neg fun hc => hns hc.2, if_neg hns]
      exact h.settled ns
  · cases List.mem_singleton.mp hmem
  · by_cases hns : key.ns = name
    · refine .inr ?_
      rw [Channel.committedPolicy, committed_insert_lifecycle, if_pos hns]
      refine (hok key policy hns hk).imp id fun hp => ?_
      rw [Channel.upgradePending] at hp ⊢
      rw [hns, List.any_append, hp, Bool.true_or]
    · exact .inl (by rw [committed_insert_lifecycle, if_neg hns])

theorem committed_insert_lscc (ch : Channel) (name ns : GoString) (ccp : Option Package)
    (events : List Event) :
    { ch with
      lscc := ch.lscc.insert name (ccp.or (ch.lscc.lookup name).join)
      events := events }.committed ns =
      if ns = name then (ch.lifecycle.lookup ns).or (ccp.or (ch.committed ns))
      else ch.committed ns := by
  simp only [Channel.committed, GoMap.lookup_insert_eq]
  by_cases hns : ns = name
  · subst hns
    cases ch.lifecycle.lookup ns <;> cases ccp <;> simp
  · simp only [if_neg hns]

theorem upgradePending_upgrade {payload : GoString}
    (hpayload : lifecycleEvent.marshal name = .ok payload)
    {events : List Event} (hevents : ch.events = events ++
      [.lsccWrite name ccp, .ccEvent ⟨lsccNamespace, upgradeEvent, payload⟩]) :
    ch.upgradePending lifecycleEvent name = true := by
  have hdrops : Event.drops lifecycleEvent name
      (.ccEvent ⟨lsccNamespace, upgradeEvent, payload⟩) = true := by
    simp [Event.drops, upgradedChaincode, lifecycleEvent.unmarshal_marshal hpayload,
      Except.toOption]
  rw [Channel.upgradePending, hevents, List.any_append, List.any_cons, List.any_cons, hdrops]
  simp

/-- `lscc` defines what the lifecycle does not: an upgrade brings its event, and an
instantiation finds no resolver. -/
theorem Sound.commitLscc (h : Sound lifecycleEvent localMSPID ch) {eventName : GoString}
    {ccp : Option Package}
    (hok : ∀ c, ccp = some c → ∀ c', ch.lifecycle.lookup name = some c' → c' = c)
    (hevent : eventName = upgradeEvent ∨ ch.lscc.lookup name = none) :
    Sound lifecycleEvent localMSPID (ch.commitLscc lifecycleEvent eventName name ccp) := by
  rw [Channel.commitLscc]
  split
  next => exact h
  next payload hpayload =>
    have hsome : ∀ {c}, ccp = some c →
        (ch.lifecycle.lookup name).or (ccp.or (ch.committed name)) = some c := by
      rintro c rfl
      cases hl : ch.lifecycle.lookup name with
      | none => rfl
      | some c' => rw [hok c rfl c' hl, Option.some_or]
    refine h.commit rfl rfl rfl (fun ns hns => ?_) (fun ns => ?_) (fun ns c hmem => ?_)
      fun key policy hk => ?_
    · rw [committed_insert_lscc]
      split
      next =>
        rw [Ne, Option.or_eq_none_iff, Option.or_eq_none_iff]
        exact fun hnone => hns hnone.2.2
      next => exact hns
    · rw [committed_insert_lscc]
      simp only [List.foldl_cons, List.foldl_nil]
      rw [show ∀ entry, Event.cached ns entry (.ccEvent ⟨lsccNamespace, eventName, payload⟩) =
        entry from fun _ => rfl]
      cases hccp : ccp with
      | none =>
        have hsame : (ch.lifecycle.lookup ns).or (ch.committed ns) = ch.committed ns := by
          rw [Channel.committed]
          cases ch.lifecycle.lookup ns <;> rfl
        rw [Option.none_or, hsame, ite_self]
        exact h.settled ns
      | some c =>
        by_cases hns : ns = name
        · refine .inr ?_
          rw [Event.cached, if_pos hns, if_pos hns, hns, ← hccp, hsome hccp, hccp]
        · rw [Event.cached, if_neg hns, if_neg hns]
          exact h.settled ns
    · rw [List.mem_pair] at hmem
      rcases hmem with hmem | hmem
      · cases hmem
        rw [committed_insert_lscc, if_pos rfl, hsome rfl]
        exact Option.some_ne_none _
      · cases hmem
    · by_cases hns : key.ns = name
      · rcases hevent with rfl | hnone
        · refine .inr (.inr ?_)
          rw [hns]
          exact upgradePending_upgrade hpayload rfl
        · -- The resolver was made for a definition of the lifecycle, which stays.
          refine .inl ?_
          have hne := h.resolved key policy hk
          rw [committed_insert_lscc, if_pos hns]
          rw [Channel.committed, hns, hnone] at hne ⊢
          cases hl : ch.lifecycle.lookup name with
          | none =>
            rw [hl] at hne
            exact absurd rfl hne
          | some c => rfl
      · exact .inl (by rw [committed_insert_lscc, if_neg hns])

/-! ### Retrievals -/

theorem getConfigs_fst (ch : Channel) (ns : GoString) :
    (ch.getConfigs ns).1 = (ch.cache.lookup ns).or (ch.committed ns) := by
  rw [Channel.getConfigs]
  cases ch.cache.lookup ns with
  | some configs => rfl
  | none => cases hc : ch.committed ns <;> simp

/-- What is found is cached then, and found again. -/
theorem getConfigs_getConfigs {ns : GoString} {configs : Package}
    (h : (ch.getConfigs ns).1 = some configs) :
    (ch.getConfigs ns).2.getConfigs ns = (some configs, (ch.getConfigs ns).2) := by
  have hcached : (ch.getConfigs ns).2.cache.lookup ns = some configs := by
    rw [getConfigs_fst] at h
    rw [Channel.getConfigs]
    cases hl : ch.cache.lookup ns with
    | some configs' =>
      rw [hl] at h
      exact hl.trans h
    | none =>
      rw [hl, Option.none_or] at h
      simp only [h, AList.lookup_insert]
  generalize (ch.getConfigs ns).2 = ch' at *
  rw [Channel.getConfigs, hcached]

/-- A retrieval loads the configurations and, if the local peer has access, makes a resolver
where there is none. -/
theorem retrieve_eq (ch : Channel) (key : CollKey) :
    ch.retrieve localMSPID key =
      let ch' := (ch.getConfigs key.ns).2
      match ((ch.getConfigs key.ns).1.bind fun configs => configs.policy key.coll) with
      | none => (none, ch')
      | some policy =>
        if localMSPID ∈ policy.memberOrgs then
          match ch'.resolvers.lookup key with
          | some resolver => (some resolver, ch')
          | none => (some policy, { ch' with resolvers := ch'.resolvers.insert key policy })
        else (none, ch') := by
  have hpolicy : ∀ c : Channel, c.policy key.ns key.coll =
      ((c.getConfigs key.ns).1.bind fun configs => configs.policy key.coll,
        (c.getConfigs key.ns).2) := by
    intro c
    rw [Channel.policy]
    split <;> simp_all
  rw [Channel.retrieve, hpolicy]
  cases hconfigs : (ch.getConfigs key.ns).1 with
  | none => rfl
  | some configs =>
    have hagain := getConfigs_getConfigs hconfigs
    generalize (ch.getConfigs key.ns).2 = ch' at *
    rw [Option.bind_some]
    cases hp : configs.policy key.coll with
    | none => rfl
    | some policy =>
      simp only [Channel.getResolver, hpolicy, hagain, Option.bind_some, hp]

theorem Sound.getConfigs (h : Sound lifecycleEvent localMSPID ch) (ns : GoString) :
    Sound lifecycleEvent localMSPID (ch.getConfigs ns).2 := by
  rw [Channel.getConfigs]
  split
  next => exact h
  next hnone =>
    split
    next => exact h
    next configs hcomm =>
      refine ⟨fun ns' => ?_, fun ns' hne => ?_, h.written, h.resolved, h.fits⟩
      · rw [Channel.settled, GoMap.lookup_insert_eq]
        by_cases hns : ns' = ns
        · subst hns
          rw [if_pos rfl]
          rcases foldl_cached ns' ch.events with hid | hconst
          · exact .inr ((hid _).trans hcomm.symm)
          · rw [hconst _ (ch.cache.lookup ns')]
            exact h.settled ns'
        · rw [if_neg hns]
          exact h.settled ns'
      · rw [GoMap.lookup_insert_eq] at hne
        by_cases hns : ns' = ns
        · rw [hns]
          exact fun hc => by cases hcomm.symm.trans hc
        · rw [if_neg hns] at hne
          exact h.cached ns' hne

theorem getConfigs_frame (ch : Channel) (ns : GoString) :
    (ch.getConfigs ns).2 = { ch with cache := (ch.getConfigs ns).2.cache } := by
  rw [Channel.getConfigs]
  split
  next => rfl
  next => split <;> rfl

section
variable (h : Sound lifecycleEvent localMSPID ch)
include h

/-- A resolver is added that fits. -/
theorem Sound.addResolver {policy : AccessPolicy} (hne : ch.committed key.ns ≠ none)
    (hfits : Fits localMSPID policy (ch.committedPolicy key.ns key.coll) ∨
      ch.upgradePending lifecycleEvent key.ns = true) :
    Sound lifecycleEvent localMSPID
      { ch with resolvers := ch.resolvers.insert key policy } := by
  have hcases : ∀ {key' policy'}, (ch.resolvers.insert key policy).lookup key' = some policy' →
      (key' = key ∧ policy' = policy) ∨ ch.resolvers.lookup key' = some policy' := by
    intro key' policy' hk
    rw [GoMap.lookup_insert_eq] at hk
    split at hk
    next heq => exact .inl ⟨heq, (Option.some.inj hk).symm⟩
    next => exact .inr hk
  refine ⟨h.settled, h.cached, h.written, fun key' policy' hk => ?_, fun key' policy' hk => ?_⟩
  · rcases hcases hk with ⟨rfl, rfl⟩ | hold
    · exact hne
    · exact h.resolved key' policy' hold
  · rcases hcases hk with ⟨rfl, rfl⟩ | hold
    · exact hfits
    · exact h.fits key' policy' hold

theorem Sound.retrieve (hok : Careful lifecycleEvent localMSPID ch (.retrieve key)) :
    Sound lifecycleEvent localMSPID (ch.retrieve localMSPID key).2 := by
  have hload := h.getConfigs key.ns
  rw [retrieve_eq]
  dsimp only
  split
  next => exact hload
  next policy hpolicy =>
    split
    next hmem =>
      split
      next => exact hload
      next hnone =>
        obtain ⟨configs, hconfigs, hp⟩ := Option.bind_eq_some_iff.mp hpolicy
        rw [getConfigs_fst] at hconfigs
        refine hload.addResolver ?_ ?_
        all_goals rw [getConfigs_frame] at hnone ⊢
        · intro hno
          have hcomm : ch.committed key.ns = none := hno
          rw [hcomm, Option.or_none] at hconfigs
          exact h.cached key.ns (by rw [hconfigs]; exact Option.some_ne_none _) hcomm
        · cases hl : ch.cache.lookup key.ns with
          | some configs' =>
            rw [hl, Option.some_or] at hconfigs
            exact hok configs policy hnone (hl.trans hconfigs) hp hmem
          | none =>
            rw [hl, Option.none_or] at hconfigs
            have hcomm : ch.committedPolicy key.ns key.coll = some policy := by
              rw [Channel.committedPolicy, hconfigs, Option.bind_some, hp]
            refine .inl ?_
            show Fits localMSPID policy (ch.committedPolicy key.ns key.coll)
            rw [hcomm]
            exact fits_self policy
    next => exact hload

theorem Sound.step {step : Step} (hok : Careful lifecycleEvent localMSPID ch step) :
    Sound lifecycleEvent localMSPID (ch.step lifecycleEvent localMSPID step) := by
  cases step with
  | deploy name ccp =>
    simp only [Channel.step]
    split
    next => exact h
    next hnone => exact h.commitLscc (by rintro c rfl; exact hok) (.inr hnone)
  | upgrade name ccp =>
    simp only [Channel.step]
    split
    next => exact h
    next => exact h.commitLscc (by rintro c rfl; exact hok) (.inl rfl)
  | commitLifecycle name ccp =>
    simp only [Channel.step]
    split
    next hname => exact h.commitLifecycle hname hok
    next => exact h
  | publish event => exact h.publish (fun _ _ => .inr rfl) fun _ _ he => by cases he
  | writeLifecycle key =>
    exact h.publish (fun _ _ => ite_eq_or_eq _ _ _) fun _ _ he => by cases he
  | handleEvent => exact h.handleEvent
  | retrieve key => exact h.retrieve hok

end

theorem sound_start : Sound lifecycleEvent localMSPID .start where
  settled _ := .inl rfl
  cached _ hne := absurd rfl hne
  written _ _ hmem := by cases hmem
  resolved _ _ hk := by cases hk
  fits _ _ hk := by cases hk

/-- Resolvers may be made while the cache has what is committed. -/
theorem careful_retrieve (h : ch.cache.lookup key.ns = ch.committed key.ns) :
    Careful lifecycleEvent localMSPID ch (.retrieve key) := by
  intro configs policy _ hcache hp _
  refine .inl ?_
  rw [Channel.committedPolicy, ← h, hcache, Option.bind_some, hp]
  exact fits_self policy

/-- Once the events are handled, the configurations that are found are those committed. -/
theorem Sound.getConfigs_eq (h : Sound lifecycleEvent localMSPID ch) (hevents : ch.events = [])
    (ns : GoString) : (ch.getConfigs ns).1 = ch.committed ns := by
  have hset := h.settled ns
  rw [Channel.settled, hevents, List.foldl_nil] at hset
  rw [getConfigs_fst]
  rcases hset with hnone | hsame
  · rw [hnone, Option.none_or]
  · rw [hsame, Option.or_self]

theorem Sound.inForce (h : Sound lifecycleEvent localMSPID ch) : InForce localMSPID ch := by
  intro hevents key policy hret m hask
  have horg := hask.mspID_mem
  rw [retrieve_eq, h.getConfigs_eq hevents] at hret
  dsimp only at hret
  split at hret
  next => cases hret
  next inForce hin =>
    refine ⟨inForce, hin, ?_⟩
    split at hret
    next hlocal =>
      split at hret
      next resolver hres =>
        obtain rfl := Option.some.inj hret
        rw [getConfigs_frame] at hres
        rcases h.fits key resolver hres with hfits | hp
        · exact hfits inForce hin hlocal horg
        · -- without an event that is going to be handled a resolver fits
          rw [Channel.upgradePending, hevents] at hp
          cases hp
      next => exact (Option.some.inj hret) ▸ horg
    next => cases hret

end

/-- In every run of careful steps, a retrieval after all events were handled asks only peers
of member organisations of the committed policy. -/
theorem inForce_of_careful (lifecycleEvent : Marshaler GoString) (localMSPID : GoString)
    {steps : List Step}
    (h : Meets (Channel.step lifecycleEvent localMSPID) (Careful lifecycleEvent localMSPID)
      .start steps) :
    InForce localMSPID (run (Channel.step lifecycleEvent localMSPID) .start steps) :=
  (run_invariant (P := Sound lifecycleEvent localMSPID) (fun _ _ hs hok => hs.step hok)
    sound_start h).inForce

def twoOrgs : Package := [([107], Transientdata.Channel.onePeerPolicy)]

def oneOrg : Package := [([107], ⟨[[1]], List.nodup_singleton _, 1⟩)]

def collK : CollKey := ⟨.offLedger, [99], [107]⟩

/-- A chaincode that `lscc` instantiates, and upgrades between two retrievals. -/
theorem inForce_upgrade :
    InForce [1] (run (Channel.step plainName [1]) .start
      [.deploy [99] (some twoOrgs), .handleEvent, .handleEvent, .retrieve collK,
        .upgrade [99] (some oneOrg), .handleEvent, .handleEvent, .retrieve collK]) :=
  inForce_of_careful plainName [1]
    ⟨fun _ h => (by cases h), trivial, trivial, careful_retrieve rfl, fun _ h => (by cases h),
      trivial, trivial, careful_retrieve rfl, trivial⟩

def endorserOfTwo : Member := ⟨[20], [2], some [Transientdata.endorserRole], false⟩

theorem distinct_endorserOfTwo :
    (([endorserOfTwo] ++ [(⟨[10], [1], none, true⟩ : Member)]).map Member.endpoint).Nodup := by
  decide

/-- A chaincode that the lifecycle defines, and defines anew after a retrieval: the next one
asks a peer of an organisation that is no member any more. -/
theorem not_inForce_lifecycle :
    ¬ InForce [1] (run (Channel.step plainName [1]) .start
      [.commitLifecycle [99] twoOrgs, .handleEvent, .retrieve collK,
        .commitLifecycle [99] oneOrg, .handleEvent]) := by
  intro h
  let d : Offledger.Disseminator :=
    ⟨⟨⟨[endorserOfTwo], ⟨[10], [1], none, true⟩⟩, distinct_endorserOfTwo⟩,
      Transientdata.Channel.onePeerPolicy, [], 1⟩
  let r : Rand := ⟨List.range, fun _ => .refl _⟩
  have hasks : Asks d.policy endorserOfTwo .offLedger :=
    ⟨d, rfl, r, r, fun _ => true, by decide⟩
  obtain ⟨p, hp, hmem⟩ := h rfl collK d.policy rfl endorserOfTwo hasks
  obtain rfl := Option.some.inj hp
  revert hmem
  decide

end FabricPeerExt.Collections.Resolvers
