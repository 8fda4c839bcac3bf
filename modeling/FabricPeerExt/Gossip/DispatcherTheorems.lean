/-
FabricPeerExt.Gossip.DispatcherTheorems — which messages can stop a peer: a panic in `Dispatch`,
or in the goroutine that consumes a response, ends the process.
-/
import FabricPeerExt.Gossip.Dispatcher
import FabricPeerExt.Gossip.RequestMgrTheorems

namespace FabricPeerExt.Gossip

open Lib
open PvtData (GoString Err liftErr wrapErr)

def Panics {α : Type} (r : Except Err α) : Prop := ∃ msg, r = .error (.panic msg)

@[simp] theorem not_panics_ok {α : Type} (a : α) : ¬ Panics (.ok a : Except Err α) := by
  rintro ⟨msg, h⟩
  cases h

variable (msg : String)

@[simp] theorem panics_panic {α : Type} :
    Panics (.error (.panic msg) : Except Err α) := ⟨msg, rfl⟩

@[simp] theorem not_panics_plain {α : Type} :
    ¬ Panics (.error (.plain msg) : Except Err α) := by
  rintro ⟨m, h⟩
  cases h

@[simp] theorem not_panics_wrap {α : Type} (e : Err) :
    ¬ Panics (.error (.wrap msg e) : Except Err α) := by
  rintro ⟨m, h⟩
  cases h

/-- An error of the one call is an error of the other. -/
theorem panics_error {α β : Type} {e : Err} :
    Panics (.error e : Except Err α) ↔ Panics (.error e : Except Err β) := by
  simp only [Panics, Except.error.injEq]

/-- A call that returns the errors of another one, and has no others, panics where that one
does. -/
theorem panics_congr {α β : Type} {r : Except Err α} {r' : Except Err β}
    (herror : ∀ e, r = .error e → r' = .error e) (hok : ∀ a, r = .ok a → ∃ b, r' = .ok b) :
    Panics r' ↔ Panics r := by
  cases hr : r with
  | error e =>
    rw [herror e hr]
    exact panics_error
  | ok a =>
    obtain ⟨b, hb⟩ := hok a hr
    rw [hb]
    exact iff_of_false (not_panics_ok b) (not_panics_ok a)

theorem not_panics_wrapErr {α : Type} (r : Except Err α) :
    ¬ Panics (wrapErr msg r) := by
  cases r with
  | error e => exact not_panics_wrap msg e
  | ok a => exact not_panics_ok a

/-- A loop panics only where its body does. -/
theorem not_panics_collect {α β : Type} {f : α → Except Err β} :
    ∀ {as : List α}, (∀ a ∈ as, ¬ Panics (f a)) → ¬ Panics (collect f as) := by
  intro as
  induction as with
  | nil => intro _; exact not_panics_ok _
  | cons a as ih =>
    intro h
    have ha := h a List.mem_cons_self
    have has := ih fun b hb => h b (List.mem_cons_of_mem a hb)
    rw [collect]
    cases hfa : f a with
    | error e => rw [hfa] at ha; exact fun hp => ha (panics_error.mp hp)
    | ok b =>
      cases hfas : collect f as with
      | error e => rw [hfas] at has; exact fun hp => has (panics_error.mp hp)
      | ok bs => exact not_panics_ok _

/-! ## §1 Consumers -/

def Asker.takesElements : Asker → Bool
  | .offLedger _ => true
  | .transientData _ => true
  | .appData _ => false
  | .cacheUpdates => false

def Data.isElements : Data → Bool
  | .elements _ => true
  | .bytes _ => false

theorem not_panics_getOffLedgerData (key : MultiKey) (elements : List Element) :
    ¬ Panics (getOffLedgerData key (.elements elements)) := by
  refine not_panics_collect fun k _ => ?_
  split
  · exact not_panics_plain _
  · exact not_panics_ok _

theorem not_panics_findValue (key : StoreKey) (elements : List Element) :
    ¬ Panics (findValue key (.elements elements)) := by
  simp only [findValue, asElements]
  split
  · exact not_panics_plain _
  · exact not_panics_ok _

/-- The index of a peer, or 0, is one of the list, which is not empty. -/
theorem not_panics_handleValidationResponse (env : Providers) (peers : ValidatingPeers)
    (response : Bytes) : ¬ Panics (handleValidationResponse env peers response) := by
  unfold handleValidationResponse
  cases env.unmarshalResults response with
  | error e => exact not_panics_plain e
  | ok vr =>
    have hlt : (if vr.endpoint ∈ peers.endpoints then peers.endpoints.idxOf vr.endpoint else 0)
        < (List.replicate peers.endpoints.length (none : Option Validation.Results)).length := by
      rw [List.length_replicate]
      split
      next hmem => exact List.idxOf_lt_length_iff.mpr hmem
      next => exact List.length_pos_iff.mpr peers.nonempty
    simp only [liftErr, if_pos hlt]
    exact not_panics_ok _

/-- A consumer panics exactly at data of the other kind. -/
theorem panics_consume_iff (env : Providers) (data : Data) (asker : Asker) :
    Panics (asker.consume env data) ↔ data.isElements ≠ asker.takesElements := by
  cases asker with
  | offLedger key =>
    have hmap : Panics ((Asker.offLedger key).consume env data) ↔
        Panics (getOffLedgerData key data) :=
      panics_congr (fun e h => by simp only [Asker.consume, h])
        (fun a h => ⟨.values a, by simp only [Asker.consume, h]⟩)
    rw [hmap]
    cases data with
    | elements elements =>
      exact iff_of_false (not_panics_getOffLedgerData key elements) (fun h => h rfl)
    | bytes response => simp [getOffLedgerData, asElements, typeAssertion, Data.isElements,
        Asker.takesElements]
  | transientData key =>
    have hmap : Panics ((Asker.transientData key).consume env data) ↔
        Panics (findValue key data) :=
      panics_congr (fun e h => by simp only [Asker.consume, h])
        (fun a h => ⟨.value a, by simp only [Asker.consume, h]⟩)
    rw [hmap]
    cases data with
    | elements elements =>
      exact iff_of_false (not_panics_findValue key elements) (fun h => h rfl)
    | bytes response => simp [findValue, asElements, typeAssertion, Data.isElements,
        Asker.takesElements]
  | appData peers =>
    have hmap : Panics ((Asker.appData peers).consume env data) ↔
        Panics (getAppData env peers data) :=
      panics_congr (fun e h => by simp only [Asker.consume, h])
        (fun a h => ⟨.results a, by simp only [Asker.consume, h]⟩)
    rw [hmap]
    cases data with
    | elements elements => simp [getAppData, typeAssertion, Data.isElements, Asker.takesElements]
    | bytes response =>
      exact iff_of_false (not_panics_handleValidationResponse env peers response) (fun h => h rfl)
  | cacheUpdates =>
    cases data with
    | elements elements =>
      simp [Asker.consume, getCacheUpdates, typeAssertion, Data.isElements, Asker.takesElements]
    | bytes response => exact iff_of_false (not_panics_ok _) (fun h => h rfl)

/-! ## §2 Requests -/

section
variable (env : Providers)

theorem not_panics_getRequestDataElement (reqMSPID : GoString) (digest : RequestDigest) :
    ¬ Panics (env.getRequestDataElement reqMSPID digest) := by
  unfold Providers.getRequestDataElement
  split
  next e he => exact fun hp => not_panics_wrapErr _ _ (he ▸ panics_error.mp hp)
  next value _ =>
    unfold Providers.isAuthorized
    cases env.policy digest.namespaceName digest.collection with
    | error e => exact not_panics_wrap _ _
    | ok orgs =>
      simp only [liftErr, wrapErr]
      cases orgs.contains reqMSPID with
      | false => exact not_panics_ok _
      | true => cases value <;> exact not_panics_ok _

/-- Whatever a request for collection data holds, it is answered or refused. -/
theorem not_panics_handleDataRequest (conn : ConnectionInfo)
    (digests : List (Option RequestDigest)) : ¬ Panics (env.handleDataRequest conn digests) := by
  have hloop : ¬ Panics (env.getRequestData (env.mspIDFromPKIID conn) digests) := by
    refine not_panics_collect fun digest _ => ?_
    cases digest with
    | none => exact not_panics_plain _
    | some digest => exact not_panics_getRequestDataElement env _ digest
  unfold Providers.handleDataRequest
  split_ifs
  · exact not_panics_ok _
  · exact not_panics_ok _
  · exact not_panics_ok _
  · split
    next msg he => rw [he] at hloop; exact absurd (panics_panic msg) hloop
    next => exact not_panics_ok _
    next => exact not_panics_ok _

/-- A block that the validation handler can read at a height: it has a header, and data
unless it is old. -/
def WireBlock.readable (block : WireBlock) (height : UInt64) : Bool :=
  match block.header with
  | none => false
  | some number => number < height || block.data.isSome

def Providers.handlesValidation : Bool := env.validatesBlocks && !env.isCommitter

def Providers.ReadableRequest (dataType : GoString) (request : Bytes) : Prop :=
  env.handlesValidation = true → dataType = Providers.validateBlockDataType →
    ∀ block, env.unmarshalBlock request = .ok block → block.readable env.ledgerHeight = true

theorem panics_handleValidateRequest_iff (request : Bytes) :
    Panics (env.handleValidateRequest request) ↔
      ∃ block, env.unmarshalBlock request = .ok block ∧
        block.readable env.ledgerHeight = false := by
  unfold Providers.handleValidateRequest
  cases env.unmarshalBlock request with
  | error e => simp
  | ok block =>
    obtain ⟨header, data⟩ := block
    cases header with
    | none => simp [WireBlock.readable, nilPointer]
    | some number =>
      by_cases hold : number < env.ledgerHeight
      · simp [WireBlock.readable, hold]
      · cases data with
        | none => simp [WireBlock.readable, hold, nilPointer]
        | some data =>
          simp only [hold, if_false, WireBlock.readable, Except.ok.injEq, exists_eq_left',
            decide_false, Bool.false_or, Option.isSome_some, Bool.true_eq_false, iff_false]
          split <;> exact not_panics_ok _

theorem panics_handleAppDataRequest_iff (dataType : GoString) (request : Bytes) :
    Panics (env.handleAppDataRequest dataType request) ↔
      ¬ env.ReadableRequest dataType request := by
  have hread := panics_handleValidateRequest_iff env request
  by_cases hreg : env.handlesValidation = true ∧ dataType = Providers.validateBlockDataType
  · have hhandler : env.handlerForType dataType =
        some fun request => (env.handleValidateRequest request).map (Option.map some) := by
      rw [Providers.handlerForType, if_pos]
      simpa [Providers.handlesValidation] using hreg
    have hsame : Panics (env.handleAppDataRequest dataType request) ↔
        Panics (env.handleValidateRequest request) := by
      simp only [Providers.handleAppDataRequest, hhandler]
      cases env.handleValidateRequest request with
      | error e => exact panics_error
      | ok response => exact iff_of_false (not_panics_ok _) (not_panics_ok _)
    rw [hsame, hread]
    simp [Providers.ReadableRequest, hreg.1, hreg.2]
  · -- the other handler, or none, does not panic
    have hno : ¬ Panics (env.handleAppDataRequest dataType request) := by
      rw [Providers.handleAppDataRequest, Providers.handlerForType, if_neg]
      · split
        · exact not_panics_ok _
        next handleRequest hhandler =>
          split at hhandler <;> cases hhandler
          exact not_panics_ok _
      · simpa [Providers.handlesValidation] using hreg
    refine iff_of_false hno (not_not.mpr fun h1 h2 => ?_)
    exact absurd ⟨h1, h2⟩ hreg

end

/-! ## §3 Messages -/

/-- `getResponseData` fails exactly if a digest is missing, and then it panics. -/
theorem getResponseData_cases (elements : List CollDataElement) :
    ((∃ e ∈ elements, e.digest = none) ∧ getResponseData elements = .error nilPointer) ∨
      ((∀ e ∈ elements, e.digest.isSome = true) ∧ ∃ data, getResponseData elements = .ok data) := by
  induction elements with
  | nil => exact .inr ⟨fun e he => (by cases he), [], rfl⟩
  | cons e elements ih =>
    obtain ⟨digest, value, expiry⟩ := e
    cases digest with
    | none => exact .inl ⟨⟨_, List.mem_cons_self, rfl⟩, rfl⟩
    | some d =>
      rcases ih with ⟨⟨e', he', hnone⟩, herr⟩ | ⟨hall, data, hok⟩
      · refine .inl ⟨⟨e', List.mem_cons_of_mem _ he', hnone⟩, ?_⟩
        simp only [getResponseData, collect] at herr ⊢
        rw [herr]
      · refine .inr ⟨fun e' he' => ?_, _, collect_cons_ok.mpr ⟨_, data, rfl, hok, rfl⟩⟩
        rcases List.mem_cons.mp he' with rfl | he'
        · rfl
        · exact hall e' he'

def Peer.awaiting (p : Peer) (nonce : UInt64) : Option Asker :=
  (p.mgr.lookup nonce).bind fun e =>
    if !e.2.done && e.2.unanswered then p.askers[e.1]? else none

/-- The message does not stop the peer: `Dispatch` does not panic, and no consumer panics
that would not have done so before. -/
structure Harmless (env : Providers) (p : Peer) (msg : GossipReceived) : Prop where
  dispatch : ¬ Panics (p.dispatch env msg)
  consume : ∀ result, p.dispatch env msg = .ok result →
    ∀ i, ¬ Panics (p.consume env i) → ¬ Panics (result.peer.consume env i)

/-- The digests are there, who waits for the response takes data of its kind, and a block to
validate has what the handler reads. Responses of a peer that is not known are dropped. -/
def WellFormed (env : Providers) (p : Peer) (msg : GossipReceived) : Prop :=
  match msg.content with
  | .collDataReq _ _ => True
  | .collDataRes nonce elements => env.mspIDFromPKIID msg.connectionInfo ≠ [] →
      (∀ e ∈ elements, e.digest.isSome = true) ∧
        ∀ asker ∈ p.awaiting nonce, asker.takesElements = true
  | .appDataReq _ dataType request => env.ReadableRequest dataType request
  | .appDataRes nonce _ => env.mspIDFromPKIID msg.connectionInfo ≠ [] →
      ∀ asker ∈ p.awaiting nonce, asker.takesElements = false
  | .other => True

section
variable {env : Providers} {p : Peer}

/-- What a consumer finds depends on its own request only. -/
theorem consume_congr {mgr : ChannelMgr} {i : Nat} (h : mgr.made[i]? = p.mgr.made[i]?) :
    Peer.consume env ⟨mgr, p.askers⟩ i = p.consume env i := by
  simp only [Peer.consume, h]

/-- The consumer of a request that waits for its first response gets the one delivered. -/
theorem consume_of_respChan {mgr : ChannelMgr} {askers : List Asker} {i : Nat} {r : Request}
    {asker : Asker} {d : Delivery} (hr : mgr.made[i]? = some r) (ha : askers[i]? = some asker)
    (hopen : ¬ (r.done || r.result.isSome) = true) (hd : r.respChan = some d) :
    Panics (Peer.consume env ⟨mgr, askers⟩ i) ↔ Panics (asker.consume env d.response.data) := by
  refine panics_congr (fun e h => ?_) (fun a h => ⟨some a, ?_⟩)
  · simp only [Peer.consume, hr, ha, if_neg hopen, hd, h]
  · simp only [Peer.consume, hr, ha, if_neg hopen, hd, h]

/-- A response only matters to the asker that waits for it. -/
theorem consume_respond_iff (nonce : UInt64) (d : Delivery) :
    (∀ i, ¬ Panics (p.consume env i) →
        ¬ Panics (Peer.consume env ⟨p.mgr.respond nonce d, p.askers⟩ i)) ↔
      ∀ asker ∈ p.awaiting nonce, ¬ Panics (asker.consume env d.response.data) := by
  cases hlookup : p.mgr.lookup nonce with
  | none =>
    have hsame : p.mgr.respond nonce d = p.mgr := by rw [ChannelMgr.respond, hlookup]
    have hnobody : p.awaiting nonce = none := by rw [Peer.awaiting, hlookup]; rfl
    rw [hsame, hnobody]
    exact iff_of_true (fun i h => h) (fun asker h => by cases h)
  | some e =>
    obtain ⟨i, r⟩ := e
    have hr : p.mgr.made[i]? = some r := (ChannelMgr.mem_of_lookup hlookup).2
    obtain ⟨hlt, -⟩ := List.getElem?_eq_some_iff.mp hr
    have hmgr : p.mgr.respond nonce d = p.mgr.update i (r.respond d) := by
      rw [ChannelMgr.respond, hlookup]
    have hself : (p.mgr.update i (r.respond d)).made[i]? = some (r.respond d) :=
      List.getElem?_set_self hlt
    have hother : ∀ j, j ≠ i →
        Peer.consume env ⟨p.mgr.update i (r.respond d), p.askers⟩ j = p.consume env j :=
      fun j hj => consume_congr (List.getElem?_set_ne (Ne.symm hj))
    rw [hmgr]
    by_cases hwait : (!r.done && r.unanswered) = true
    · -- The channel is empty and `GetResponse` has not returned: the asker gets `d`.
      obtain ⟨hdone, hempty, hres⟩ :
          r.done = false ∧ r.respChan = none ∧ r.result = none := by
        simpa [Request.unanswered] using hwait
      have hopen : ¬ (r.done || r.result.isSome) = true := by simp [hdone, hres]
      have hnew : r.respond d = { r with respChan := some d } := by
        rw [Request.respond, hempty]
      have hawait : p.awaiting nonce = p.askers[i]? := by
        simp only [Peer.awaiting, hlookup, Option.bind_some, if_pos hwait]
      rw [hawait]
      constructor
      · intro h asker hasker
        have hbefore : ¬ Panics (p.consume env i) := by
          simp [Peer.consume, hr, Option.mem_def.mp hasker, hdone, hres, hempty]
        rw [← @consume_of_respChan env _ _ _ _ _ _ (hself.trans (congrArg some hnew))
          (Option.mem_def.mp hasker) hopen rfl]
        exact h i hbefore
      · intro h j hj
        by_cases hji : j = i
        · subst hji
          cases ha : p.askers[j]? with
          | none => simp [Peer.consume, ha]
          | some asker =>
            rw [consume_of_respChan (hself.trans (congrArg some hnew)) ha hopen rfl]
            exact h asker ha
        · rw [hother j hji]; exact hj
    · -- The asker has its response already, or does not wait any more.
      have hawait : p.awaiting nonce = none := by
        simp only [Peer.awaiting, hlookup, Option.bind_some, if_neg hwait]
      rw [hawait]
      refine iff_of_true (fun j hj => ?_) (fun asker h => by cases h)
      by_cases hji : j = i
      · subst hji
        cases ha : p.askers[j]? with
        | none => simp [Peer.consume, ha]
        | some asker =>
          cases hchan : r.respChan with
          | some d' =>
            have hsame : Peer.consume env ⟨p.mgr.update j (r.respond d), p.askers⟩ j =
                p.consume env j := by
              simp only [Peer.consume, hself, hr, ha]
              simp only [Request.respond, hchan]
            rw [hsame]; exact hj
          | none =>
            have hclosed : (r.done || r.result.isSome) = true := by
              simp only [Request.unanswered, hchan, Option.isNone_none, Bool.true_and] at hwait
              cases hd : r.done <;> cases hres : r.result <;> simp_all
            simp only [Peer.consume, hself, ha]
            simp [Request.respond, hchan, hclosed]
      · rw [hother j hji]; exact hj

/-- A message that leaves the requests as they are can only do harm in `Dispatch`. -/
theorem harmless_of_unchanged {msg : GossipReceived} (hpanic : ¬ Panics (p.dispatch env msg))
    (hpeer : ∀ result, p.dispatch env msg = .ok result → result.peer = p) :
    Harmless env p msg where
  dispatch := hpanic
  consume result hresult i hi := by
    rw [hpeer result hresult]
    exact hi

/-- A response is harmless if who waits for it takes data of its kind. -/
theorem harmless_respond_iff {msg : GossipReceived} {nonce : UInt64} {d : Delivery} {handled : Bool}
    {sent : Option GossipContent} (hdispatch : p.dispatch env msg =
      .ok ⟨⟨p.mgr.respond nonce d, p.askers⟩, handled, sent⟩) :
    Harmless env p msg ↔
      ∀ asker ∈ p.awaiting nonce, asker.takesElements = d.response.data.isElements := by
  have hconsume := @consume_respond_iff env p nonce d
  simp only [panics_consume_iff, ne_eq, not_not] at hconsume
  constructor
  · intro h asker hasker
    exact (hconsume.mp (h.consume _ hdispatch) asker hasker).symm
  · intro h
    refine ⟨by rw [hdispatch]; exact not_panics_ok _, fun result hresult => ?_⟩
    rw [hdispatch, Except.ok.injEq] at hresult
    subst hresult
    exact hconsume.mpr fun asker hasker => (h asker hasker).symm

end

/-- The messages that do not stop a peer, whatever its requests are. -/
theorem harmless_iff_wellFormed (env : Providers) (p : Peer) (msg : GossipReceived) :
    Harmless env p msg ↔ WellFormed env p msg := by
  obtain ⟨content, conn⟩ := msg
  cases content with
  | collDataReq nonce digests =>
    have hdispatch : Panics (p.dispatch env ⟨.collDataReq nonce digests, conn⟩) ↔
        Panics (env.handleDataRequest conn digests) :=
      panics_congr (fun e h => by simp only [Peer.dispatch, h])
        (fun a h => ⟨_, by simp only [Peer.dispatch, h]; rfl⟩)
    refine iff_of_true (harmless_of_unchanged ?_ fun result hresult => ?_) trivial
    · rw [hdispatch]
      exact not_panics_handleDataRequest env conn digests
    · simp only [Peer.dispatch] at hresult
      split at hresult <;> cases hresult
      rfl
  | collDataRes nonce elements =>
    simp only [WellFormed]
    by_cases hmsp : env.mspIDFromPKIID conn = []
    · refine iff_of_true (harmless_of_unchanged ?_ fun result hresult => ?_)
        (fun h => absurd hmsp h)
      · simp [Peer.dispatch, hmsp]
      · simp only [Peer.dispatch, hmsp, if_true, Except.ok.injEq] at hresult
        rw [← hresult]
    · rcases getResponseData_cases elements with ⟨⟨e, he, hnone⟩, herr⟩ | ⟨hall, data, hok⟩
      · refine iff_of_false (fun h => h.dispatch ?_) (fun h => ?_)
        · simp [Peer.dispatch, hmsp, herr, nilPointer]
        · have hsome := (h hmsp).1 e he
          rw [hnone] at hsome
          cases hsome
      · have hdispatch : p.dispatch env ⟨.collDataRes nonce elements, conn⟩ = .ok
            ⟨⟨p.mgr.respond nonce ⟨conn.id, conn.endpoint, env.mspIDFromPKIID conn,
              .elements data⟩, p.askers⟩, true, none⟩ := by
          simp [Peer.dispatch, hmsp, hok, ChannelMgr.handleDataResponse]
        rw [harmless_respond_iff hdispatch]
        exact ⟨fun h _ => ⟨hall, h⟩, fun h => (h hmsp).2⟩
  | appDataReq nonce dataType request =>
    have hreq := panics_handleAppDataRequest_iff env dataType request
    have hdispatch : Panics (p.dispatch env ⟨.appDataReq nonce dataType request, conn⟩) ↔
        Panics (env.handleAppDataRequest dataType request) :=
      panics_congr (fun e h => by simp only [Peer.dispatch, h])
        (fun a h => ⟨_, by simp only [Peer.dispatch, h]; rfl⟩)
    simp only [WellFormed]
    constructor
    · intro h
      exact not_not.mp fun hn => h.dispatch (hdispatch.mpr (hreq.mpr hn))
    · intro h
      refine harmless_of_unchanged (fun hp => hreq.mp (hdispatch.mp hp) h) fun result hresult => ?_
      simp only [Peer.dispatch] at hresult
      split at hresult <;> cases hresult
      rfl
  | appDataRes nonce response =>
    simp only [WellFormed]
    by_cases hmsp : env.mspIDFromPKIID conn = []
    · refine iff_of_true (harmless_of_unchanged (not_panics_ok _) fun result hresult => ?_)
        (fun h => absurd hmsp h)
      simp only [Peer.dispatch, ChannelMgr.handleAppDataResponse, hmsp, if_true,
        Except.ok.injEq] at hresult
      rw [← hresult]
    · have hdispatch : p.dispatch env ⟨.appDataRes nonce response, conn⟩ = .ok
          ⟨⟨p.mgr.respond nonce ⟨conn.id, conn.endpoint, env.mspIDFromPKIID conn,
            .bytes (response.getD [])⟩, p.askers⟩, true, none⟩ := by
        simp [Peer.dispatch, ChannelMgr.handleAppDataResponse, hmsp]
      rw [harmless_respond_iff hdispatch]
      exact ⟨fun h _ => h, fun h => h hmsp⟩
  | other =>
    refine iff_of_true (harmless_of_unchanged (not_panics_ok _) fun result hresult => ?_) trivial
    rw [← Except.ok.inj hresult]

theorem onePeer_nodup : ([[49]] : List GoString).Nodup := List.nodup_singleton _

def onePeer : ValidatingPeers := ⟨[[49]], onePeer_nodup, List.cons_ne_nil _ _⟩

/-- No consumer panics now, and every request has its asker. -/
structure Peer.Safe (env : Providers) (p : Peer) : Prop where
  consume : ∀ i, ¬ Panics (p.consume env i)
  aligned : p.askers.length = p.mgr.made.length

section
variable {env : Providers} {p : Peer}

@[simp] theorem length_made_update (mgr : ChannelMgr) (i : Nat) (r : Request) :
    (mgr.update i r).made.length = mgr.made.length := List.length_set

@[simp] theorem length_made_respond (mgr : ChannelMgr) (nonce : UInt64) (d : Delivery) :
    (mgr.respond nonce d).made.length = mgr.made.length := by
  rw [ChannelMgr.respond]
  split
  · rfl
  · exact length_made_update mgr _ _

theorem handleValidateRequest_error {request : Bytes} {e : Err}
    (h : env.handleValidateRequest request = .error e) : e = nilPointer := by
  simp only [Providers.handleValidateRequest] at h
  split at h
  · cases h
  next block _ =>
    split at h
    · cases h; rfl
    next number _ =>
      by_cases hold : number < env.ledgerHeight
      · rw [if_pos hold] at h
        cases h
      · rw [if_neg hold] at h
        split at h
        · cases h; rfl
        · split at h <;> cases h

/-- `Dispatch` handles its errors: what it does not handle is a panic. -/
theorem dispatch_error {msg : GossipReceived} {e : Err} (h : p.dispatch env msg = .error e) :
    Panics (.error e : Except Err Dispatched) := by
  simp only [Peer.dispatch] at h
  split at h
  · split at h <;> cases h
    next hreq =>
      simp only [Providers.handleDataRequest] at hreq
      split_ifs at hreq
      split at hreq <;> cases hreq
      exact panics_panic _
  next nonce elements _ =>
    split at h
    · cases h
    · rcases getResponseData_cases elements with ⟨-, herr⟩ | ⟨-, data, hok⟩
      · rw [herr] at h
        cases h
        exact panics_panic _
      · rw [hok] at h
        cases h
  next nonce dataType request _ =>
    split at h <;> cases h
    next hreq =>
      simp only [Providers.handleAppDataRequest] at hreq
      split at hreq
      · cases hreq
      next handler hhandler =>
        rw [Providers.handlerForType] at hhandler
        split at hhandler
        · cases hhandler
          cases hvalidate : env.handleValidateRequest request with
          | error e' =>
            simp only [hvalidate] at hreq
            cases hreq
            rw [handleValidateRequest_error hvalidate]
            exact panics_panic _
          | ok response =>
            simp only [hvalidate] at hreq
            cases hreq
        · split at hhandler <;> cases hhandler
          cases hreq
  · cases h
  · cases h

/-- `Dispatch` neither makes nor forgets requests. -/
theorem dispatch_frame {msg : GossipReceived} {result : Dispatched}
    (h : p.dispatch env msg = .ok result) :
    result.peer.askers = p.askers ∧ result.peer.mgr.made.length = p.mgr.made.length := by
  simp only [Peer.dispatch] at h
  split at h
  · split at h <;> cases h
    exact ⟨rfl, rfl⟩
  · split at h
    · cases h; exact ⟨rfl, rfl⟩
    next hmsp =>
      split at h
      · cases h
      next data hok =>
        cases h
        refine ⟨rfl, ?_⟩
        simp only [ChannelMgr.handleDataResponse, if_neg hmsp, hok]
        exact length_made_respond _ _ _
  · split at h <;> cases h
    exact ⟨rfl, rfl⟩
  · cases h
    refine ⟨rfl, ?_⟩
    simp only [ChannelMgr.handleAppDataResponse]
    split
    · rfl
    · exact length_made_respond _ _ _
  · cases h; exact ⟨rfl, rfl⟩

/-- A request is closed: nobody consumes a response any more. -/
theorem Peer.Safe.update (h : p.Safe env) {mgr : ChannelMgr} {i : Nat} {r : Request}
    (hclosed : (r.done || r.result.isSome) = true) (hmade : mgr.made = p.mgr.made.set i r) :
    Peer.Safe env ⟨mgr, p.askers⟩ where
  consume := fun j => by
    by_cases hji : j = i
    · subst hji
      by_cases hlt : j < p.mgr.made.length
      · have hself : mgr.made[j]? = some r := by rw [hmade]; exact List.getElem?_set_self hlt
        simp only [Peer.consume, hself]
        cases p.askers[j]? with
        | none => exact not_panics_ok _
        | some asker => simp [hclosed]
      · have hnone : mgr.made[j]? = none := by
          rw [hmade, List.getElem?_eq_none_iff, List.length_set]
          exact Nat.le_of_not_lt hlt
        simp [Peer.consume, hnone]
    · rw [consume_congr (by rw [hmade]; exact List.getElem?_set_ne (Ne.symm hji))]
      exact h.consume j
  aligned := by rw [hmade, List.length_set]; exact h.aligned

theorem Peer.Safe.ask (h : p.Safe env) (asker : Asker) (peers : List RemotePeer)
    (hfree : p.mgr.readLocked = false) :
    Peer.Safe env ⟨p.mgr.ask peers, p.askers ++ [asker]⟩ where
  consume := fun i => by
    have hmade : (p.mgr.ask peers).made =
        p.mgr.made ++ [newRequest (p.mgr.nextRequestID + 1) peers] := by
      simp [ChannelMgr.ask, hfree]
    by_cases hlt : i < p.mgr.made.length
    · have hi : Peer.consume env ⟨p.mgr.ask peers, p.askers ++ [asker]⟩ i = p.consume env i := by
        simp only [Peer.consume, hmade, List.getElem?_append_left hlt,
          List.getElem?_append_left (h.aligned ▸ hlt)]
      rw [hi]
      exact h.consume i
    · simp only [Peer.consume, hmade, List.getElem?_append_right (Nat.le_of_not_lt hlt)]
      cases hn : [newRequest (p.mgr.nextRequestID + 1) peers][i - p.mgr.made.length]? with
      | none => exact not_panics_ok _
      | some r =>
        obtain rfl := List.mem_singleton.mp (List.mem_of_getElem? hn)
        cases (p.askers ++ [asker])[i]? with
        | none => exact not_panics_ok _
        | some a => exact not_panics_ok _
  aligned := by simp [ChannelMgr.ask, hfree, h.aligned]

def WellFormedStep (env : Providers) (p : Peer) : PeerStep → Prop
  | .receive msg => WellFormed env p msg
  | _ => True

/-- Only a message can do harm. -/
theorem Peer.Safe.step (h : p.Safe env) {step : PeerStep} (hok : WellFormedStep env p step) :
    ∃ p', p.step env step = .ok p' ∧ p'.Safe env := by
  cases step with
  | ask asker peers =>
    cases hlock : p.mgr.readLocked with
    | true => exact ⟨p, by simp [Peer.step, hlock], h⟩
    | false => exact ⟨_, by simp only [Peer.step, hlock]; rfl, h.ask asker peers hlock⟩
  | receive msg =>
    have hm := (harmless_iff_wellFormed env p msg).mpr hok
    cases hd : p.dispatch env msg with
    | error e =>
      -- An error of `Dispatch` is a panic.
      refine absurd ?_ hm.dispatch
      rw [hd]
      exact dispatch_error hd
    | ok result =>
      obtain ⟨haskers, hlength⟩ := dispatch_frame hd
      refine ⟨result.peer, by simp [Peer.step, hd], fun i => ?_, ?_⟩
      · exact hm.consume result hd i (h.consume i)
      · rw [haskers, hlength]
        exact h.aligned
  | take i =>
    have hi := h.consume i
    have hstep : p.step env (.take i) = .ok { p with mgr := p.mgr.take i } := by
      simp only [Peer.step]
      split
      next msg hc => rw [hc] at hi; exact absurd (panics_panic msg) hi
      next => rfl
    refine ⟨_, hstep, ?_⟩
    simp only [ChannelMgr.take]
    split
    · exact h
    next r hr =>
      split
      · exact h
      next =>
        split
        · exact h
        next d _ => exact h.update (r := r.take d) (by simp [Request.take]) rfl
  | giveUp i =>
    refine ⟨_, rfl, ?_⟩
    simp only [ChannelMgr.giveUp]
    split
    · exact h
    next r hr =>
      split
      · exact h
      · exact h.update (r := { r with result := some none }) (by simp) rfl
  | cancel i =>
    refine ⟨_, rfl, ?_⟩
    simp only [ChannelMgr.cancel]
    split
    · exact h
    next r hr =>
      split
      · exact h
      · exact h.update (r := { r with done := true }) (by simp) rfl

end

end FabricPeerExt.Gossip
