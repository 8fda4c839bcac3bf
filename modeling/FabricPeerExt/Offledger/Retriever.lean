/-
FabricPeerExt.Offledger.Retriever — off-ledger data from other peers,
`pkg/collections/offledger/retriever/olretriever.go`.

What the other peers and gossip do is an `Environment`: views of the channel, random choices, and
the answers in the order of arrival.
-/
import FabricPeerExt.Common.MultiRequest
import FabricPeerExt.Gossip.Dispatcher
import FabricPeerExt.Offledger.Disseminator

namespace FabricPeerExt.Offledger

open Lib
open Common
open PvtData (GoString Err wrapErr)
open Gossip (Data MultiKey ExpiringValue getOffLedgerData getElement asElements
  typeAssertion)
open Transientdata (contains endorserRole)
open Validation (Member PeerGroup committerRole)

/-! ## The code -/

/-- `GetOLCollMaxRetrievalAttempts`, with its default. -/
def getOLCollMaxRetrievalAttempts (maxAttempts : Int) : Int :=
  if maxAttempts ≤ 0 then 3 else maxAttempts

abbrev Answer := Except Err Data

/-- What is outside the code, for every attempt: the view of the channel, the random choices,
and the answers of the peers asked in the order of arrival. -/
structure Environment where
  view : Nat → View
  rand : Nat → Rand × Rand
  answers : Nat → PeerGroup → List (Member × Answer)
  all_answer : ∀ attempt peers, ((answers attempt peers).map Prod.fst).Perm peers

/-- `retriever`, as far as it is used: what `getResolver` returns, and the configured number
of attempts. -/
structure Retriever where
  resolver : Except Err Disseminator
  maxAttempts : Int

def getData (key : MultiKey) : Answer → Except Err (Values Gossip.ExpiringValue)
  | .error e => .error e
  | .ok data => getOffLedgerData key data

/-- `retriever.getDataFromPeer`, for the peers of an attempt. -/
def responses (key : MultiKey) (answers : List (Member × Answer)) :
    List (Res Gossip.ExpiringValue Err) :=
  answers.map fun a => ⟨a.1.endpoint, getData key a.2⟩

def Answer.panics : Answer → Bool
  | .error _ => false
  | .ok (.elements _) => false
  | .ok (.bytes _) => true

/-- The peers that an attempt asks: not those that were asked before. -/
def nextPeers (res : Disseminator) (env : Environment) (attempt : Nat)
    (attemptedPeers : PeerGroup) : PeerGroup :=
  { res with view := env.view attempt }.resolvePeersForRetrieval (env.rand attempt).1
    (env.rand attempt).2 fun peer => !contains attemptedPeers peer

/-- The loop of `getDataFromRemotePeers`: the values, and the peers asked in every attempt. -/
def retrieveLoop (res : Disseminator) (env : Environment) (key : MultiKey) :
    Nat → Nat → PeerGroup → Values Gossip.ExpiringValue →
      Except Err (Values Gossip.ExpiringValue × List PeerGroup)
  | 0, _, _, values => .ok (values, [])
  | left + 1, attempt, attemptedPeers, values =>
    let peers := nextPeers res env attempt attemptedPeers
    if peers.length = 0 then .ok (values, [])
    else
      let answers := env.answers attempt peers
      if answers.any fun a => a.2.panics then .error typeAssertion
      else
        let values := values.merge (execute (responses key answers)).values
        if values.allSet then .ok (values, [peers])
        else
          match retrieveLoop res env key left (attempt + 1) (attemptedPeers ++ peers) values with
          | .error e => .error e
          | .ok (values, asked) => .ok (values, peers :: asked)

/-- `retriever.getDataFromRemotePeers`. -/
def Retriever.getDataFromRemotePeers (r : Retriever) (env : Environment) (key : MultiKey)
    (values : Values Gossip.ExpiringValue) :
    Except Err (Values Gossip.ExpiringValue × List PeerGroup) :=
  match wrapErr "unable to get resolver" r.resolver with
  | .error e => .error e
  | .ok res =>
    retrieveLoop res env key (getOLCollMaxRetrievalAttempts r.maxAttempts).toNat 1 [] values

/-! ## What the values should be -/

def Gives (key : MultiKey) (data : Data) (i : Nat) (v : Gossip.ExpiringValue) : Prop :=
  ∃ elements k e, data = .elements elements ∧ key.keys[i]? = some k ∧
    getElement elements key.namespaceName key.collection k = some e ∧ e.expiringValue = some v

/-- What the values retrieved are to be. -/
structure Retrieves (res : Disseminator) (env : Environment) (key : MultiKey)
    (localValues : Values Gossip.ExpiringValue) (maxAttempts : Int)
    (values : Values Gossip.ExpiringValue) (asked : List PeerGroup) : Prop where
  /-- There is one slot for each key. -/
  slots : values.length = key.keys.length
  /-- A value is the local one, or a peer that was asked gave it for that key. -/
  origin : ∀ i v, values.slot i = some v → localValues.slot i = some v ∨
    ∃ n peers m data, asked[n]? = some peers ∧ m ∈ peers ∧
      (m, .ok data) ∈ env.answers (n + 1) peers ∧ Gives key data i v
  /-- A local value is not replaced. -/
  kept : ∀ i v, localValues.slot i = some v → values.slot i = some v
  /-- A slot is empty only if no response that was merged has a value for it. -/
  empty : ∀ i, values.slot i = none → ∀ n peers, asked[n]? = some peers →
    ∀ p ∈ merged (responses key (env.answers (n + 1) peers)), p.2.slot i = none
  /-- No endpoint is asked in two attempts. -/
  once : asked.Pairwise fun peers peers' =>
    ∀ m ∈ peers, ∀ m' ∈ peers', m.endpoint ≠ m'.endpoint
  attempts : (asked.length : Int) ≤ maxAttempts
  /-- While a slot is empty peers are asked, until there are no attempts or no peers left. -/
  persistent : values.allSet = false → (asked.length : Int) = maxAttempts ∨
    nextPeers res env (asked.length + 1) asked.flatten = []

/-! ## One attempt -/

variable {values : Values Gossip.ExpiringValue} {env : Environment}

section
variable {key : MultiKey} {answer : Answer} (h : getData key answer = .ok values)
include h

/-- The values in a response are those of the keys, in order. -/
theorem getData_eq : ∃ elements, answer = .ok (.elements elements) ∧
      values.map some = key.keys.map fun k =>
        (getElement elements key.namespaceName key.collection k).map
          Gossip.Element.expiringValue := by
  match answer with
  | .error e => cases h
  | .ok (.bytes b) => cases h
  | .ok (.elements elements) =>
    refine ⟨elements, rfl, map_collect h fun k _ v hv => ?_⟩
    split at hv
    · cases hv
    · next e he =>
      cases hv
      rw [he]
      rfl

theorem length_getData : values.length = key.keys.length := by
  obtain ⟨elements, _, heq⟩ := getData_eq h
  have hlen := congrArg List.length heq
  rwa [List.length_map, List.length_map] at hlen

theorem gives_of_slot {i : Nat} {v : Gossip.ExpiringValue}
    (hslot : values.slot i = some v) : ∃ data, answer = .ok data ∧ Gives key data i v := by
  obtain ⟨elements, rfl, heq⟩ := getData_eq h
  have hv : values[i]? = some (some v) := Option.join_eq_some_iff.mp hslot
  have hi := congrArg (fun l => l[i]?) heq
  simp only [List.getElem?_map, hv, Option.map_some] at hi
  obtain ⟨k, hk, he⟩ := Option.map_eq_some_iff.mp hi.symm
  obtain ⟨e, he, hev⟩ := Option.map_eq_some_iff.mp he
  exact ⟨.elements elements, rfl, elements, k, e, rfl, hk, he, hev⟩

end

/-- Whoever is chosen passes the filter. -/
theorem includes_of_mem {d : Disseminator} {r r' : Rand} {includePeer : Member → Bool}
    {m : Member} (h : m ∈ d.resolvePeersForRetrieval r r' includePeer) :
    includePeer m = true := by
  rw [d.resolvePeersForRetrieval_eq] at h
  rcases mem_of_mem_topUp h with h | h
  · exact (List.mem_filter.mp h).2
  · exact (List.mem_filter.mp h).2

theorem endpoint_ne_of_not_contains {g : PeerGroup} {m m' : Member}
    (h : (!contains g m) = true) (hm' : m' ∈ g) : m'.endpoint ≠ m.endpoint := by
  intro heq
  have hc : contains g m = true := List.any_eq_true.mpr ⟨m', hm', decide_eq_true heq⟩
  rw [hc] at h
  cases h

section
variable {key : MultiKey} {answers : List (Member × Answer)}

/-- What is merged in an attempt comes from an answer. -/
theorem answer_of_mem_merged {p : Res Gossip.ExpiringValue Err × Values Gossip.ExpiringValue}
    (h : p ∈ merged (responses key answers)) : ∃ a ∈ answers, getData key a.2 = .ok p.2 := by
  obtain ⟨hmem, hok⟩ := mem_of_mem_merged h
  obtain ⟨a, ha, heq⟩ := List.mem_map.mp hmem
  refine ⟨a, ha, ?_⟩
  rw [← heq] at hok
  exact hok

theorem length_merge_execute {values : Values Gossip.ExpiringValue}
    (h : values.length = key.keys.length) :
    (values.merge (execute (responses key answers)).values).length = key.keys.length := by
  have hle : (execute (responses key answers)).values.length ≤ key.keys.length := by
    refine length_execute_le fun r hr vs hvs => ?_
    obtain ⟨a, _, rfl⟩ := List.mem_map.mp hr
    exact length_getData hvs
  rw [Values.length_merge, h]
  exact max_eq_left hle

end

/-! ## All attempts -/

/-- What the loop does from an attempt on: `asked` are the peers from there on. -/
structure Attempts (res : Disseminator) (env : Environment) (key : MultiKey)
    (left attempt : Nat) (attemptedPeers : PeerGroup)
    (values values' : Values Gossip.ExpiringValue) (asked : List PeerGroup) : Prop where
  slots : values.length = key.keys.length → values'.length = key.keys.length
  origin : ∀ i v, values'.slot i = some v → values.slot i = some v ∨
    ∃ n peers, asked[n]? = some peers ∧
      ∃ p ∈ merged (responses key (env.answers (attempt + n) peers)), p.2.slot i = some v
  kept : ∀ i v, values.slot i = some v → values'.slot i = some v
  empty : ∀ i, values'.slot i = none → ∀ n peers, asked[n]? = some peers →
    ∀ p ∈ merged (responses key (env.answers (attempt + n) peers)), p.2.slot i = none
  fresh : ∀ peers ∈ asked, ∀ m ∈ peers, ∀ a ∈ attemptedPeers, a.endpoint ≠ m.endpoint
  once : asked.Pairwise fun peers peers' =>
    ∀ m ∈ peers, ∀ m' ∈ peers', m.endpoint ≠ m'.endpoint
  attempts : asked.length ≤ left
  persistent : values'.allSet = false → asked.length = left ∨
    nextPeers res env (attempt + asked.length) (attemptedPeers ++ asked.flatten) = []

variable {res : Disseminator}

/-- The loop ends: a slot that is empty then is not asked for because there are no attempts or
no peers left. -/
theorem attempts_nil {key : MultiKey} {left attempt : Nat} {attemptedPeers : PeerGroup}
    {values : Values Gossip.ExpiringValue} (hend : values.allSet = false →
      left = 0 ∨ nextPeers res env attempt attemptedPeers = []) :
    Attempts res env key left attempt attemptedPeers values values [] where
  slots := id
  origin := fun i v h => .inl h
  kept := fun i v h => h
  empty := fun i h n peers hn => by simp at hn
  fresh := fun peers hp => by simp at hp
  once := .nil
  attempts := Nat.zero_le _
  persistent := fun h => by
    rw [List.flatten_nil, List.append_nil]
    exact (hend h).imp_left Eq.symm

/-- An attempt with some peers, and then the others. -/
theorem Attempts.cons {key : MultiKey} {left attempt : Nat}
    {attemptedPeers peers : PeerGroup} {values values' : Values Gossip.ExpiringValue}
    {asked : List PeerGroup}
    (hfresh : ∀ m ∈ peers, ∀ a ∈ attemptedPeers, a.endpoint ≠ m.endpoint)
    (h : Attempts res env key left (attempt + 1) (attemptedPeers ++ peers)
      (values.merge (execute (responses key (env.answers attempt peers))).values) values' asked) :
    Attempts res env key (left + 1) attempt attemptedPeers values values' (peers :: asked) where
  slots := fun hlen => h.slots (length_merge_execute hlen)
  origin := by
    intro i v hv
    rcases h.origin i v hv with hv | ⟨n, peers', hn, p, hp, hpv⟩
    · rw [Values.slot_merge, slot_execute] at hv
      rcases Option.or_eq_some_iff.mp hv with hv | ⟨_, hv⟩
      · exact .inl hv
      · obtain ⟨p, hp, hpv⟩ := List.exists_of_findSome?_eq_some hv
        exact .inr ⟨0, peers, rfl, p, hp, hpv⟩
    · refine .inr ⟨n + 1, peers', hn, p, ?_, hpv⟩
      rwa [Nat.add_right_comm] at hp
  kept := by
    intro i v hv
    refine h.kept i v ?_
    rw [Values.slot_merge, hv]
    rfl
  empty := by
    intro i hnone n peers' hn p hp
    cases n with
    | zero =>
      obtain rfl := Option.some.inj hn
      have hmerged : (values.merge (execute (responses key
          (env.answers attempt peers))).values).slot i = none := by
        by_contra hsome
        obtain ⟨v, hv⟩ := Option.ne_none_iff_exists'.mp hsome
        rw [h.kept i v hv] at hnone
        cases hnone
      rw [Values.slot_merge, slot_execute] at hmerged
      exact List.findSome?_eq_none_iff.mp (Option.or_eq_none_iff.mp hmerged).2 p hp
    | succ n =>
      refine h.empty i hnone n peers' hn p ?_
      rwa [Nat.add_right_comm]
  fresh := by
    intro peers' hp m hm a ha
    rcases List.mem_cons.mp hp with rfl | hp
    · exact hfresh m hm a ha
    · exact h.fresh peers' hp m hm a (List.mem_append_left _ ha)
  once := by
    refine List.Pairwise.cons (fun peers' hp m hm m' hm' => ?_) h.once
    exact h.fresh peers' hp m' hm' m (List.mem_append_right _ hm)
  attempts := Nat.succ_le_succ h.attempts
  persistent := fun hempty => by
    rw [List.length_cons, ← Nat.add_assoc, Nat.add_right_comm, List.flatten_cons,
      ← List.append_assoc]
    exact (h.persistent hempty).imp_left (congrArg (· + 1))

theorem attempts_retrieveLoop {key : MultiKey} :
    ∀ {left attempt : Nat} {attemptedPeers : PeerGroup}
      {values values' : Values Gossip.ExpiringValue} {asked : List PeerGroup},
      retrieveLoop res env key left attempt attemptedPeers values = .ok (values', asked) →
        Attempts res env key left attempt attemptedPeers values values' asked := by
  intro left
  induction left with
  | zero =>
    intro attempt attemptedPeers values values' asked h
    cases h
    exact attempts_nil fun _ => .inl rfl
  | succ left ih =>
    intro attempt attemptedPeers values values' asked h
    rw [retrieveLoop] at h
    dsimp only at h
    generalize hpeers : nextPeers res env attempt attemptedPeers = peers at h
    have hfresh : ∀ m ∈ peers, ∀ a ∈ attemptedPeers, a.endpoint ≠ m.endpoint := by
      intro m hm a ha
      rw [← hpeers] at hm
      exact endpoint_ne_of_not_contains (includes_of_mem hm) ha
    split at h
    · next hnone =>
      cases h
      exact attempts_nil fun _ => .inr (hpeers.trans (List.length_eq_zero_iff.mp hnone))
    · split at h
      · cases h
      · split at h
        · next hset =>
          cases h
          exact .cons hfresh (attempts_nil fun hempty => absurd (hset.symm.trans hempty) (by simp))
        · split at h
          · cases h
          · next values'' asked' hloop =>
            cases h
            exact .cons hfresh (ih hloop)

theorem getOLCollMaxRetrievalAttempts_nonneg (maxAttempts : Int) :
    0 ≤ getOLCollMaxRetrievalAttempts maxAttempts := by
  rw [getOLCollMaxRetrievalAttempts]
  split <;> omega

/-- From the first attempt on. -/
theorem Attempts.retrieves {key : MultiKey} {maxAttempts : Int}
    {values values' : Values Gossip.ExpiringValue} {asked : List PeerGroup}
    (h : Attempts res env key (getOLCollMaxRetrievalAttempts maxAttempts).toNat 1 [] values
      values' asked) (hlen : values.length = key.keys.length) :
    Retrieves res env key values (getOLCollMaxRetrievalAttempts maxAttempts) values' asked where
  slots := h.slots hlen
  origin := by
    intro i v hv
    rcases h.origin i v hv with hv | ⟨n, peers, hn, p, hp, hpv⟩
    · exact .inl hv
    · obtain ⟨⟨m, answer⟩, hmem, hdata⟩ := answer_of_mem_merged hp
      obtain ⟨data, rfl, hgives⟩ := gives_of_slot hdata hpv
      have hm : m ∈ peers :=
        (env.all_answer _ peers).mem_iff.mp (List.mem_map_of_mem (f := Prod.fst) hmem)
      rw [Nat.add_comm] at hmem
      exact .inr ⟨n, peers, m, data, hn, hm, hmem, hgives⟩
  kept := h.kept
  empty := by
    intro i hnone n peers hn p hp
    rw [Nat.add_comm] at hp
    exact h.empty i hnone n peers hn p hp
  once := h.once
  attempts := by
    have hle := h.attempts
    have hpos := getOLCollMaxRetrievalAttempts_nonneg maxAttempts
    omega
  persistent := fun hempty => by
    have hpos := getOLCollMaxRetrievalAttempts_nonneg maxAttempts
    rw [Nat.add_comm]
    exact (h.persistent hempty).imp_left fun hlen => by omega

/-- The loop returns unless an answer is not a list of elements. -/
theorem retrieveLoop_returns {key : MultiKey}
    (henv : ∀ attempt peers, ∀ a ∈ env.answers attempt peers, a.2.panics = false) :
    ∀ (left attempt : Nat) (attemptedPeers : PeerGroup) (values : Values Gossip.ExpiringValue),
      ∃ out, retrieveLoop res env key left attempt attemptedPeers values = .ok out := by
  intro left
  induction left with
  | zero => exact fun attempt attemptedPeers values => ⟨_, rfl⟩
  | succ left ih =>
    intro attempt attemptedPeers values
    rw [retrieveLoop]
    dsimp only
    split
    · exact ⟨_, rfl⟩
    · split
      · next hany =>
        obtain ⟨a, ha, hp⟩ := List.any_eq_true.mp hany
        rw [henv _ _ a ha] at hp
        cases hp
      · split
        · exact ⟨_, rfl⟩
        · split
          · next e hloop =>
            obtain ⟨out, hout⟩ := ih _ _ _
            rw [hloop] at hout
            cases hout
          · exact ⟨_, rfl⟩

/-- For every list of keys with their local values and everything other peers may answer, the
values retrieved are right: there is one slot for each key, with the local value of the key
or one that a peer that was asked gave for it; a local value is kept; a slot is empty only
if no response that was merged has a value for it; no endpoint is asked in two attempts,
and there are no more attempts than configured. While a slot is empty, peers are asked until
there are no attempts or no other peers left. The function returns if there is a resolver
and the answers are lists of elements. -/
theorem getDataFromRemotePeers_retrieves (r : Retriever) (env : Environment) (ns coll : GoString)
    (entries : List (GoString × Option Gossip.ExpiringValue)) :
    (∀ values asked, r.getDataFromRemotePeers env ⟨ns, coll, entries.map Prod.fst⟩
        (entries.map Prod.snd) = .ok (values, asked) → ∃ res, r.resolver = .ok res ∧
      Retrieves res env ⟨ns, coll, entries.map Prod.fst⟩ (entries.map Prod.snd)
        (getOLCollMaxRetrievalAttempts r.maxAttempts) values asked) ∧
    ((∃ res, r.resolver = .ok res) →
      (∀ attempt peers, ∀ a ∈ env.answers attempt peers, a.2.panics = false) →
      ∃ out, r.getDataFromRemotePeers env ⟨ns, coll, entries.map Prod.fst⟩
        (entries.map Prod.snd) = .ok out) := by
  constructor
  · intro values asked h
    rw [Retriever.getDataFromRemotePeers] at h
    split at h
    · cases h
    · next res hres =>
      exact ⟨res, PvtData.wrapErr_ok.mp hres, (attempts_retrieveLoop h).retrieves (by simp)⟩
  · rintro ⟨res, hres⟩ henv
    rw [Retriever.getDataFromRemotePeers, hres]
    exact retrieveLoop_returns henv _ _ _ _

def endorserP (n : UInt8) : Member := ⟨[112, n], [79], some [endorserRole], false⟩

/-- Two endorsers, of which one is asked in an attempt. -/
def twoEndorsers : Disseminator where
  view :=
    { peers := [endorserP 1, endorserP 2]
      self := ⟨[112, 0], [79], some [], true⟩
      distinct := by decide }
  policy := onePeer.policy
  localRoles := [committerRole, endorserRole]
  maxPeers := 1

/-- The first endorser has the key `b` and the second one `b` and `c`, with another `b`. -/
def holding (m : Member) : Data :=
  .elements [⟨[110], [99], [97], none, none⟩,
    ⟨[110], [99], [98], some (if m = endorserP 1 then [1] else [2]), none⟩,
    ⟨[110], [99], [99], if m = endorserP 1 then none else some [3], none⟩]

def twoHolders : Environment where
  view _ := twoEndorsers.view
  rand _ := (⟨List.range, fun _ => .refl _⟩, ⟨List.range, fun _ => .refl _⟩)
  answers _ peers := peers.map fun m => (m, .ok (holding m))
  all_answer _ peers := by rw [List.map_map]; exact .of_eq (List.map_id peers)

/-- The local value of `a` is kept, `b` is filled by the first attempt and `c` by the second. -/
theorem getDataFromRemotePeers_retrieves_twoAttempts :
    let entries : List (GoString × Option Gossip.ExpiringValue) :=
      [([97], some ⟨some [0], none⟩), ([98], none), ([99], none)]
    let values : Values Gossip.ExpiringValue :=
      [some ⟨some [0], none⟩, some ⟨some [1], none⟩, some ⟨some [3], none⟩]
    (⟨.ok twoEndorsers, 3⟩ : Retriever).getDataFromRemotePeers twoHolders
        ⟨[110], [99], entries.map Prod.fst⟩ (entries.map Prod.snd) =
      .ok (values, [[endorserP 1], [endorserP 2]]) ∧
    Retrieves twoEndorsers twoHolders ⟨[110], [99], entries.map Prod.fst⟩
      (entries.map Prod.snd) 3 values [[endorserP 1], [endorserP 2]] := by
  intro entries values
  have h : (⟨.ok twoEndorsers, 3⟩ : Retriever).getDataFromRemotePeers twoHolders
        ⟨[110], [99], entries.map Prod.fst⟩ (entries.map Prod.snd) =
      .ok (values, [[endorserP 1], [endorserP 2]]) := by rfl
  obtain ⟨_, hres, hret⟩ :=
    (getDataFromRemotePeers_retrieves ⟨.ok twoEndorsers, 3⟩ twoHolders [110] [99] entries).1 _ _ h
  cases hres
  exact ⟨h, hret⟩

end FabricPeerExt.Offledger
