/-
FabricPeerExt.Gossip.RequestMgrTheorems — who has sent the response a request accepts
(`accepted_from_asked`).

`Respond` finds the request by the number in the message, and nothing compares the sender with the
peers that were asked.
-/
import FabricPeerExt.Gossip.RequestMgr

namespace FabricPeerExt.Gossip

open Lib
open PvtData (GoString)

/-! ## §1 Steps -/

def Content.nonce : Content → Option UInt64
  | .collDataRes nonce _ => some nonce
  | .appDataRes nonce _ => some nonce
  | .other => none

/-- How a request of the manager after a step comes about. -/
inductive Origin (mgr : ChannelMgr) : Step → Request → Prop where
  | kept {step : Step} {r : Request} : r ∈ mgr.made → Origin mgr step r
  | made {peers : List RemotePeer} (reqID : UInt64) :
      Origin mgr (.ask peers) (newRequest reqID peers)
  | responded {msg : ReceivedMessage} {mspID : GoString} {nonce : UInt64} {i : Nat} {r : Request}
      {d : Delivery} : mspID ≠ [] → msg.content.nonce = some nonce →
      mgr.lookup nonce = some (i, r) → d.sender = msg.connectionInfo.id →
      Origin mgr (.receive msg mspID) (r.respond d)
  | taken {i : Nat} {r : Request} {d : Delivery} : r ∈ mgr.made → r.result = none →
      r.respChan = some d → Origin mgr (.take i) (r.take d)
  | gaveUp {i : Nat} {r : Request} : r ∈ mgr.made → r.result = none →
      Origin mgr (.giveUp i) { r with result := some none }
  | canceled {i : Nat} {r : Request} : r ∈ mgr.made →
      Origin mgr (.cancel i) { r with done := true }

section
variable {mgr : ChannelMgr}

variable {r r' : Request}

theorem ChannelMgr.mem_of_lookup {reqID : UInt64} {i : Nat} (h : mgr.lookup reqID = some (i, r)) :
    mgr.requests.lookup reqID = some i ∧ mgr.made[i]? = some r := by
  obtain ⟨j, hj, hr⟩ := Option.bind_eq_some_iff.mp h
  obtain ⟨r', hr', heq⟩ := Option.map_eq_some_iff.mp hr
  obtain ⟨rfl, rfl⟩ := Prod.mk.inj heq
  exact ⟨hj, hr'⟩

theorem ChannelMgr.mem_update {i : Nat} (h : r' ∈ (mgr.update i r).made) :
    r' ∈ mgr.made ∨ r' = r := List.mem_or_eq_of_mem_set h

/-- A response changes the request with its number, if there is one. -/
theorem ChannelMgr.mem_respond {reqID : UInt64} {d : Delivery}
    (h : r' ∈ (mgr.respond reqID d).made) :
    r' ∈ mgr.made ∨ ∃ i r, mgr.lookup reqID = some (i, r) ∧ r' = r.respond d := by
  rw [respond] at h
  split at h
  next => exact .inl h
  next i r hlookup =>
    rcases mem_update h with hmem | rfl
    · exact .inl hmem
    · exact .inr ⟨i, r, hlookup, rfl⟩

theorem origin_of_mem_dispatch {msg : ReceivedMessage} {mspID : GoString}
    (h : r' ∈ (mgr.dispatch msg mspID).made) : Origin mgr (.receive msg mspID) r' := by
  unfold ChannelMgr.dispatch at h
  split at h
  next nonce elements hc =>
    unfold ChannelMgr.handleDataResponse at h
    split at h
    next => exact .kept h
    next hmsp =>
      split at h
      next => exact .kept h
      next data _ =>
        rcases ChannelMgr.mem_respond h with hmem | ⟨i, r, hl, rfl⟩
        · exact .kept hmem
        · exact .responded hmsp (congrArg Content.nonce hc) hl rfl
  next nonce response hc =>
    unfold ChannelMgr.handleAppDataResponse at h
    split at h
    next => exact .kept h
    next hmsp =>
      rcases ChannelMgr.mem_respond h with hmem | ⟨i, r, hl, rfl⟩
      · exact .kept hmem
      · exact .responded hmsp (congrArg Content.nonce hc) hl rfl
  next => exact .kept h

theorem not_done_or_result (h : ¬ (r.done || r.result.isSome) = true) :
    r.done = false ∧ r.result = none := by
  simpa using h

theorem origin_of_mem_step {step : Step} (h : r' ∈ (Step.step mgr step).made) :
    Origin mgr step r' := by
  cases step with
  | ask peers =>
    simp only [Step.step, ChannelMgr.ask] at h
    split at h
    next => exact .kept h
    next =>
      rcases List.mem_append.mp h with hmem | hnew
      · exact .kept hmem
      · obtain rfl := List.mem_singleton.mp hnew
        exact .made _
  | receive msg mspID => exact origin_of_mem_dispatch h
  | take i =>
    simp only [Step.step, ChannelMgr.take] at h
    split at h
    next => exact .kept h
    next r hr =>
      split at h
      next => exact .kept h
      next hopen =>
        split at h
        next => exact .kept h
        next d hd =>
          rcases ChannelMgr.mem_update h with hmem | rfl
          · exact .kept hmem
          · exact .taken (List.mem_of_getElem? hr) (not_done_or_result hopen).2 hd
  | giveUp i =>
    simp only [Step.step, ChannelMgr.giveUp] at h
    split at h
    next => exact .kept h
    next r hr =>
      split at h
      next => exact .kept h
      next hopen =>
        rcases ChannelMgr.mem_update h with hmem | rfl
        · exact .kept hmem
        · exact .gaveUp (List.mem_of_getElem? hr) (not_done_or_result hopen).2
  | cancel i =>
    simp only [Step.step, ChannelMgr.cancel] at h
    split at h
    next => exact .kept h
    next r hr =>
      split at h
      next => exact .kept h
      next =>
        rcases ChannelMgr.mem_update h with hmem | rfl
        · exact .kept hmem
        · exact .canceled (List.mem_of_getElem? hr)

end

/-! ## §2 Senders -/

def Request.Asked (r : Request) (id : PkiID) : Prop := id ∈ r.peers.map RemotePeer.pkiID

instance decidableAsked (r : Request) (id : PkiID) : Decidable (r.Asked id) :=
  inferInstanceAs (Decidable (_ ∈ _))

/-- Every response that was accepted was sent by a peer the request was sent to. -/
def FromAsked (mgr : ChannelMgr) : Prop :=
  ∀ r ∈ mgr.made, ∀ d, r.result = some (some d) → r.Asked d.sender

def Request.unanswered (r : Request) : Bool := r.respChan.isNone && r.result.isNone

/-- The first message with the number of a pending request comes from a peer that was
asked. -/
def AskedFirst (mgr : ChannelMgr) : Step → Prop
  | .receive msg mspID => mspID ≠ [] → ∀ e ∈ msg.content.nonce.bind mgr.lookup,
      e.2.unanswered = true → e.2.Asked msg.connectionInfo.id
  | _ => True

instance decidableAskedFirst (mgr : ChannelMgr) : ∀ step, Decidable (AskedFirst mgr step)
  | .receive msg mspID => inferInstanceAs (Decidable (mspID ≠ [] →
      ∀ e ∈ msg.content.nonce.bind mgr.lookup,
        e.2.unanswered = true → e.2.Asked msg.connectionInfo.id))
  | .ask _ | .take _ | .giveUp _ | .cancel _ => isTrue trivial

/-- What a request holds: the response it has accepted, and until then the one it will
accept, come from a peer that was asked. -/
structure Request.Sound (r : Request) : Prop where
  accepted : ∀ d, r.result = some (some d) → r.Asked d.sender
  next : r.result = none → ∀ d, r.respChan = some d → r.Asked d.sender

variable {d : Delivery} {r : Request}

/-- A response that finds the channel full waits, and is not the next one. -/
theorem Request.Sound.respond (h : r.Sound)
    (hd : r.unanswered = true → r.Asked d.sender) : (r.respond d).Sound := by
  rw [Request.respond]
  split
  next hempty =>
    refine ⟨h.accepted, fun hres e he => ?_⟩
    obtain rfl := Option.some.inj he
    refine hd ?_
    rw [Request.unanswered, hempty, show r.result = none from hres]
    rfl
  next => exact ⟨h.accepted, h.next⟩

theorem Request.Sound.take (h : r.Sound) (hres : r.result = none)
    (hd : r.respChan = some d) : (r.take d).Sound where
  accepted := fun e he => by
    obtain rfl := Option.some.inj (Option.some.inj he)
    exact h.next hres _ hd
  next := fun hnone => by cases hnone

theorem sound_step {mgr : ChannelMgr} {step : Step} (h : ∀ r ∈ mgr.made, r.Sound)
    (hfirst : AskedFirst mgr step) : ∀ r ∈ (Step.step mgr step).made, r.Sound := by
  intro r' hr'
  cases origin_of_mem_step hr' with
  | kept hmem => exact h r' hmem
  | made reqID => exact ⟨fun _ h => (by cases h), fun _ _ h => (by cases h)⟩
  | responded hmsp hnonce hlookup hsender =>
    have hr := h _ (List.mem_of_getElem? (ChannelMgr.mem_of_lookup hlookup).2)
    refine hr.respond fun hun => ?_
    rw [hsender]
    exact hfirst hmsp (_, _) (Option.bind_eq_some_iff.mpr ⟨_, hnonce, hlookup⟩) hun
  | taken hmem hres hd => exact (h _ hmem).take hres hd
  | gaveUp hmem _ =>
    refine ⟨fun _ hd => ?_, fun hd => ?_⟩
    · cases hd
    · cases hd
  | canceled hmem => exact ⟨(h _ hmem).accepted, (h _ hmem).next⟩

/-- In every run in which the first message with the number of a pending request comes from
a peer that was asked, every response accepted was sent by a peer the request was sent
to. -/
theorem accepted_from_asked {steps : List Step}
    (h : Meets Step.step AskedFirst newChannelMgr steps) :
    FromAsked (run Step.step newChannelMgr steps) := by
  have hsound : ∀ r ∈ (run Step.step newChannelMgr steps).made, r.Sound :=
    run_invariant (P := fun mgr : ChannelMgr => ∀ r ∈ mgr.made, r.Sound)
      (fun _ _ hs hok => sound_step hs hok) (fun _ hr => by cases hr) h
  exact fun r hr => (hsound r hr).accepted

/-- A request to the peer 1, which answers; a late message of the peer 2 with the same
number is not accepted. -/
theorem accepted_from_asked_inTime :
    FromAsked (run Step.step newChannelMgr
      [.ask [⟨[1], [1]⟩], .receive ⟨.appDataRes 1000000001 [7], ⟨[1], [1]⟩⟩ [65],
        .receive ⟨.appDataRes 1000000001 [8], ⟨[2], [2]⟩⟩ [66], .take 0, .cancel 0]) :=
  accepted_from_asked (by decide +kernel)

/-- The peer 2 answers the request that was sent to the peer 1. -/
theorem accepted_from_stranger :
    ¬ FromAsked (run Step.step newChannelMgr
      [.ask [⟨[1], [1]⟩], .receive ⟨.appDataRes 1000000001 [8], ⟨[2], [2]⟩⟩ [66], .take 0]) := by
  intro h
  exact absurd (h _ List.mem_cons_self _ rfl) (by decide)

end FabricPeerExt.Gossip
