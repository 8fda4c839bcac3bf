/-
FabricPeerExt.Txn.DefinitionCache — when the cached chaincode definitions of the validator are the
committed ones.

The handler of `newValidator` empties the cache at events named "upgrade" of the chaincode "lscc"
(`newChaincodeUpgradeHandler` of `pkg/gossip/blockpublisher/blockpublisher.go`). The lifecycle
sets no event.
-/
import FabricPeerExt.Txn.ProprespValidatorTheorems

namespace FabricPeerExt.Txn

open Lib
open PvtData (GoString Err)

/-! ## §1 System -/

/-- `pb.ChaincodeEvent`. -/
structure ChaincodeEvent where
  chaincodeId : GoString
  eventName : GoString
  payload : Bytes

def upgradeEvent : GoString := [117, 112, 103, 114, 97, 100, 101]

/-- The event of an instantiation: "deploy". -/
def deployEvent : GoString := [100, 101, 112, 108, 111, 121]

/-- `newChaincodeUpgradeHandler`: the chaincode for which the handler is called, if it is.
`lifecycleEvent` is the encoding of a `pb.LifecycleEvent`, which has the chaincode's name. -/
def upgradedChaincode (lifecycleEvent : Marshaler GoString) (event : ChaincodeEvent) :
    Option GoString :=
  if event.chaincodeId ≠ lsccNamespace then none
  else if event.eventName ≠ upgradeEvent then none
  else (lifecycleEvent.unmarshal event.payload).toOption

/-- The committed definitions, the events to handle, and the cache. -/
structure Channel where
  lifecycle : GoMap GoString ChaincodeInfo
  lscc : GoMap GoString Bytes
  events : List ChaincodeEvent
  cache : DefinitionCache

def Channel.start : Channel := ⟨∅, ∅, [], ∅⟩

def Channel.ledger (ch : Channel) : Ledger where
  chaincodeInfo := fun name => match ch.lifecycle.lookup name with
    | none => .error errUnknownChaincode
    | some info => .ok info
  getState := fun name => .ok ((ch.lscc.lookup name).getD [])

/-- What can happen on the channel. -/
inductive ChannelStep where
  | deploy (name : GoString) (ccData : Bytes)
  | upgrade (name : GoString) (ccData : Bytes)
  | commitLifecycle (name : GoString) (info : ChaincodeInfo)
  | publish (event : ChaincodeEvent)
  | handleEvent
  | validate (proposal : Bytes) (responses : List ProposalResponse)

section
variable (protos : Protos) (crypto : Crypto) (lifecycleEvent : Marshaler GoString)

/-- A transaction of `lscc`: the state and the event. It is refused if the event cannot be
marshalled. -/
def Channel.commitLscc (ch : Channel) (eventName name : GoString) (ccData : Bytes) : Channel :=
  match lifecycleEvent.marshal name with
  | .error _ => ch
  | .ok payload => { ch with
      lscc := ch.lscc.insert name ccData
      events := ch.events ++ [⟨lsccNamespace, eventName, payload⟩] }

/-- `Publisher.handleCCEvent` for the handler of `newValidator`. -/
def Channel.handleEvent (ch : Channel) : Channel :=
  match ch.events with
  | [] => ch
  | event :: events => match upgradedChaincode lifecycleEvent event with
    | none => { ch with events := events }
    | some _ => { ch with events := events, cache := ∅ }

/-- The channel after a step. `lscc` instantiates a chaincode once and upgrades it then. -/
def Channel.step (ch : Channel) : ChannelStep → Channel
  | .deploy name ccData => match ch.lscc.lookup name with
    | some _ => ch
    | none => ch.commitLscc lifecycleEvent deployEvent name ccData
  | .upgrade name ccData => match ch.lscc.lookup name with
    | none => ch
    | some _ => ch.commitLscc lifecycleEvent upgradeEvent name ccData
  | .commitLifecycle name info => { ch with lifecycle := ch.lifecycle.insert name info }
  | .publish event => { ch with events := ch.events ++ [event] }
  | .handleEvent => ch.handleEvent lifecycleEvent
  | .validate proposal responses =>
    { ch with cache := (validate protos crypto ch.ledger ch.cache proposal responses).2 }

/-! ## §2 Coherence -/

/-- Once all events are handled, the code is that found without a cache. -/
def Transparent (ch : Channel) : Prop :=
  ch.events = [] → ∀ proposal responses,
    (validate protos crypto ch.ledger ch.cache proposal responses).1.code =
      (validateWith protos crypto (createCCDefinition protos ch.ledger) proposal responses).code

def Channel.purgePending (ch : Channel) : Bool :=
  ch.events.any fun event => (upgradedChaincode lifecycleEvent event).isSome

/-- A definition of the lifecycle is committed only for a chaincode that is not cached, or
before the cache is emptied anyway. -/
def Uncached (ch : Channel) : ChannelStep → Prop
  | .commitLifecycle name _ =>
    ch.cache.lookup name = none ∨ ch.purgePending lifecycleEvent = true
  | _ => True

/-- The cache has committed definitions, or will be emptied. -/
def Fresh (ch : Channel) : Prop :=
  ch.purgePending lifecycleEvent = true ∨ ch.cache.Coherent (createCCDefinition protos ch.ledger)

end

section
variable {protos : Protos} {crypto : Crypto} {lifecycleEvent : Marshaler GoString} {ch : Channel}

variable {ch' : Channel} {name : GoString}

/-- The definition of a chaincode depends on what is committed under its name. -/
theorem createCCDefinition_congr (hl : ch'.lifecycle.lookup name = ch.lifecycle.lookup name)
    (hs : ch'.lscc.lookup name = ch.lscc.lookup name) :
    createCCDefinition protos ch'.ledger name = createCCDefinition protos ch.ledger name := by
  simp only [createCCDefinition, createLifecycleCCDefinition, createLSCCDefinition,
    Channel.ledger, hl, hs]

/-- A chaincode that only the lifecycle defines keeps its definition when `lscc` has one. -/
theorem createCCDefinition_of_lscc_none
    {d : ChaincodeDefinition} (hl : ch'.lifecycle.lookup name = ch.lifecycle.lookup name)
    (hnone : ch.lscc.lookup name = none)
    (hd : createCCDefinition protos ch.ledger name = .ok d) :
    createCCDefinition protos ch'.ledger name = .ok d := by
  have hlifecycle : createLifecycleCCDefinition protos ch'.ledger name =
      createLifecycleCCDefinition protos ch.ledger name := by
    simp only [createLifecycleCCDefinition, Channel.ledger, hl]
  have hlscc : createLSCCDefinition protos ch.ledger name =
      .error (.plain "lscc's state not found.") := by
    simp [createLSCCDefinition, Channel.ledger, hnone, PvtData.liftErr, PvtData.wrapErr]
  rw [createCCDefinition] at hd ⊢
  rw [hlifecycle]
  split at hd
  next => cases hd
  next => exact hd
  next => rw [hlscc] at hd; cases hd

/-- An event that is added leaves those on their way. -/
theorem purgePending_append {event : ChaincodeEvent}
    (h : ch'.events = ch.events ++ [event]) (hp : ch.purgePending lifecycleEvent = true) :
    ch'.purgePending lifecycleEvent = true := by
  rw [Channel.purgePending] at hp ⊢
  rw [h, List.any_append, hp, Bool.true_or]

section
variable (h : Fresh protos lifecycleEvent ch)
include h

theorem Fresh.deploy {ccData : Bytes} (hnone : ch.lscc.lookup name = none) :
    Fresh protos lifecycleEvent (ch.commitLscc lifecycleEvent deployEvent name ccData) := by
  rw [Channel.commitLscc]
  split
  next => exact h
  next payload _ =>
    refine h.imp (purgePending_append rfl) fun hcoh k d hk => ?_
    have hd := hcoh k d hk
    by_cases hkey : k = name
    · subst hkey
      exact @createCCDefinition_of_lscc_none protos ch _ k d rfl hnone hd
    · rw [← hd]
      refine createCCDefinition_congr rfl ?_
      rw [GoMap.lookup_insert_eq, if_neg hkey]

theorem Fresh.upgrade (name : GoString) (ccData : Bytes) :
    Fresh protos lifecycleEvent (ch.commitLscc lifecycleEvent upgradeEvent name ccData) := by
  rw [Channel.commitLscc]
  split
  next => exact h
  next payload hp =>
    refine .inl ?_
    have hevent : (upgradedChaincode lifecycleEvent
        ⟨lsccNamespace, upgradeEvent, payload⟩).isSome = true := by
      simp [upgradedChaincode, lifecycleEvent.unmarshal_marshal hp, Except.toOption]
    simp [Channel.purgePending, hevent]

theorem Fresh.commitLifecycle (info : ChaincodeInfo)
    (hok : ch.cache.lookup name = none ∨ ch.purgePending lifecycleEvent = true) :
    Fresh protos lifecycleEvent { ch with lifecycle := ch.lifecycle.insert name info } := by
  rcases hok with hnone | hp
  · refine h.imp id fun hcoh k d hk => ?_
    have hkey : k ≠ name := fun he => by
      subst he
      cases hnone.symm.trans hk
    rw [← hcoh k d hk]
    refine createCCDefinition_congr ?_ rfl
    rw [GoMap.lookup_insert_eq, if_neg hkey]
  · exact .inl hp

theorem Fresh.handleEvent :
    Fresh protos lifecycleEvent (ch.handleEvent lifecycleEvent) := by
  rw [Channel.handleEvent]
  split
  next => exact h
  next event events hev =>
    split
    next hno =>
      refine h.imp (fun hp => ?_) id
      rw [Channel.purgePending, hev, List.any_cons, hno] at hp
      exact hp
    next => exact .inr GoMap.coherent_empty

theorem Fresh.step {step : ChannelStep} (hok : Uncached lifecycleEvent ch step) :
    Fresh protos lifecycleEvent (ch.step protos crypto lifecycleEvent step) := by
  cases step with
  | deploy name ccData =>
    simp only [Channel.step]
    split
    next => exact h
    next hnone => exact h.deploy hnone
  | upgrade name ccData =>
    simp only [Channel.step]
    split
    next => exact h
    next => exact h.upgrade name ccData
  | commitLifecycle name info => exact h.commitLifecycle info hok
  | publish event => exact h.imp (purgePending_append rfl) id
  | handleEvent => exact h.handleEvent
  | validate proposal responses => exact h.imp id coherent_validate

/-- Once no event is on its way, the cache has committed definitions. -/
theorem Fresh.transparent (crypto : Crypto) :
    Transparent protos crypto ch := by
  intro hnone proposal responses
  have hcoh : ch.cache.Coherent (createCCDefinition protos ch.ledger) := by
    refine h.resolve_left fun hp => ?_
    rw [Channel.purgePending, hnone] at hp
    cases hp
  have hlookup : ch.cache.cached (createCCDefinition protos ch.ledger) =
      createCCDefinition protos ch.ledger := funext fun _ => hcoh.cached_eq
  rw [fst_validate, hlookup]

end

theorem fresh_run {steps : List ChannelStep}
    (h : Meets (Channel.step protos crypto lifecycleEvent) (Uncached lifecycleEvent) .start steps) :
    Fresh protos lifecycleEvent (run (Channel.step protos crypto lifecycleEvent) .start steps) :=
  run_invariant (P := Fresh protos lifecycleEvent) (fun _ _ hs hok => hs.step hok)
    (.inr GoMap.coherent_empty) h

end

/-- In every run in which the definitions committed in the lifecycle are not cached, a call of
`Validate` after all events were handled returns the code found without a cache. -/
theorem transparent_run (protos : Protos) (crypto : Crypto) (lifecycleEvent : Marshaler GoString)
    {steps : List ChannelStep}
    (h : Meets (Channel.step protos crypto lifecycleEvent) (Uncached lifecycleEvent) .start steps) :
    Transparent protos crypto (run (Channel.step protos crypto lifecycleEvent) .start steps) :=
  (fresh_run h).transparent crypto

def plainName : Marshaler GoString where
  marshal := fun name => .ok name
  unmarshal := fun bs => .ok bs
  unmarshal_marshal := fun h => by cases h; rfl

def invokesC : Protos := { metadataProtos with
  txRwSetFromProtoBytes := fun _ => .ok []
  unmarshalApplicationPolicy := fun b => .ok (some b) }

def responseOfC : ProposalResponse := ⟨some ⟨200, []⟩, [], some ⟨[99], []⟩⟩

/-- A chaincode that `lscc` instantiates, and upgrades between two calls. The lifecycle defines
another chaincode, and then this one before the event of the upgrade is handled. -/
theorem transparent_run_upgrade :
    Transparent invokesC nameCrypto (run (Channel.step invokesC nameCrypto plainName) .start
      [.deploy [99] [99], .handleEvent, .validate [] [responseOfC],
        .commitLifecycle [100] ⟨[49], [99]⟩, .upgrade [99] [100],
        .commitLifecycle [99] ⟨[50], [99]⟩, .handleEvent, .validate [] [responseOfC]]) :=
  transparent_run invokesC nameCrypto plainName
    ⟨trivial, trivial, trivial, .inl (by decide +kernel), trivial, .inr (by decide +kernel),
      trivial, trivial, trivial⟩

/-- A chaincode that the lifecycle defines, and defines anew between two calls: the second one
finds the first version valid. -/
theorem not_transparent_lifecycle :
    ¬ Transparent invokesC nameCrypto (run (Channel.step invokesC nameCrypto plainName) .start
      [.commitLifecycle [99] ⟨[49], [99]⟩, .validate [] [responseOfC],
        .commitLifecycle [99] ⟨[50], [99]⟩]) := by
  intro h
  exact absurd (h rfl [] [responseOfC]) (by decide +kernel)

end FabricPeerExt.Txn
