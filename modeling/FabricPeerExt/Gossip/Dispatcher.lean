/-
FabricPeerExt.Gossip.Dispatcher — what a peer does with the gossip messages it receives,
`pkg/gossip/dispatcher/dispatcher.go`, and with the responses it has asked for.

A panic is the error `Err.panic`. What is modelled elsewhere or not in the repository is a field
of `Providers`, which does not panic. A list of elements has no nil element, but any message
inside an element or a block may be missing.
-/
import FabricPeerExt.Collections.RwSets
import FabricPeerExt.Gossip.RequestMgr
import FabricPeerExt.Validation.Results

namespace FabricPeerExt.Gossip

open Lib
open PvtData (GoString Err liftErr wrapErr)
open Collections (CollectionType)
open Validation (Results)

/-! ## §1 Messages -/

structure RequestDigest extends CollDataDigest where
  endorsedAtTxID : GoString

/-- The four kinds of messages that `Dispatch` handles. -/
inductive GossipContent where
  | collDataReq (nonce : UInt64) (digests : List (Option RequestDigest))
  | collDataRes (nonce : UInt64) (elements : List CollDataElement)
  | appDataReq (nonce : UInt64) (dataType : GoString) (request : Bytes)
  | appDataRes (nonce : UInt64) (response : Option Bytes)
  | other

/-- `protoext.ReceivedMessage`. The connection is known to gossip, it is not sent. -/
structure GossipReceived where
  content : GossipContent
  connectionInfo : ConnectionInfo

/-! ## What the dispatcher uses -/

structure StoreKey where
  endorsedAtTxID : GoString
  namespaceName : GoString
  collection : GoString
  key : GoString

structure MultiKey where
  namespaceName : GoString
  collection : GoString
  keys : List GoString

structure ExpiringValue where
  value : Option Bytes
  expiry : Option Int

/-- `common.Block` as it is unmarshalled: the number of the header, if there is one, and the
transactions, if there are data. -/
structure WireBlock where
  header : Option UInt64
  data : Option (List Bytes)

/-- What the dispatcher calls. -/
structure Providers where
  isEndorser : Bool
  isCommitter : Bool
  /-- `IsDistributedValidationEnabled` and the validator role. -/
  validatesBlocks : Bool
  getMSPID : PkiID → Option GoString
  config : GoString → GoString → Except String CollectionType
  /-- `MemberOrgs` of the policy of a collection. -/
  policy : GoString → GoString → Except String (List GoString)
  getTransientData : StoreKey → Except String (Option ExpiringValue)
  getData : StoreKey → Except String (Option ExpiringValue)
  unmarshalBlock : Bytes → Except String WireBlock
  ledgerHeight : UInt64
  /-- `ValidatePartial` and the signed results; nothing if there is no response. -/
  validatePartial : UInt64 → List Bytes → Option Bytes
  unmarshalResults : Bytes → Except String Results
  /-- The number of the block in a request for cache updates. -/
  unmarshalCacheUpdatesRequest : Bytes → Except String UInt64
  getCacheUpdatesForBlock : UInt64 → Option Bytes

def nilPointer : Err := .panic "invalid memory address or nil pointer dereference"

def typeAssertion : Err := .panic "interface conversion"

namespace Providers

variable (env : Providers)

/-- `Dispatcher.mspIDFromPKIID`. -/
def mspIDFromPKIID (conn : ConnectionInfo) : GoString := (env.getMSPID conn.id).getD []

/-! ## §2 Requests -/

/-- `Dispatcher.getDataForKey`. -/
def getDataForKey (key : StoreKey) : Except Err (Option ExpiringValue) :=
  match liftErr (env.config key.namespaceName key.collection) with
  | .error e => .error e
  | .ok .colTransient => liftErr (env.getTransientData key)
  | .ok .colDcas => liftErr (env.getData key)
  | .ok .colOffLedger => liftErr (env.getData key)
  | .ok .colPrivate => .error (.plain "unsupported collection type")
  | .ok .colUnknown => .error (.plain "unsupported collection type")

/-- `Dispatcher.isAuthorized`. -/
def isAuthorized (mspID ns coll : GoString) : Except Err Bool :=
  match wrapErr "unable to get policy for collection" (liftErr (env.policy ns coll)) with
  | .error e => .error e
  | .ok memberOrgs => .ok (memberOrgs.contains mspID)

/-- `Dispatcher.getRequestDataElement`. -/
def getRequestDataElement (reqMSPID : GoString) (digest : RequestDigest) :
    Except Err CollDataElement :=
  match wrapErr "error getting data" (env.getDataForKey
      ⟨digest.endorsedAtTxID, digest.namespaceName, digest.collection, digest.key⟩) with
  | .error e => .error e
  | .ok value =>
    match env.isAuthorized reqMSPID digest.namespaceName digest.collection with
    | .error e => .error e
    | .ok false => .ok ⟨some digest.toCollDataDigest, none, none⟩
    | .ok true => match value with
      | none => .ok ⟨some digest.toCollDataDigest, none, none⟩
      | some v => .ok ⟨some digest.toCollDataDigest, v.value, v.expiry⟩

/-- `Dispatcher.getRequestData`. -/
def getRequestData (reqMSPID : GoString) :
    List (Option RequestDigest) → Except Err (List CollDataElement) :=
  collect fun
    | none => .error (.plain "got nil digest in CollDataRequestMsg")
    | some digest => env.getRequestDataElement reqMSPID digest

/-- `handleDataRequest`: the elements of the response, or no response. An error is logged. -/
def handleDataRequest (conn : ConnectionInfo) (digests : List (Option RequestDigest)) :
    Except Err (Option (List CollDataElement)) :=
  if !env.isEndorser && !env.isCommitter then .ok none
  else if digests.isEmpty then .ok none
  else if env.mspIDFromPKIID conn = [] then .ok none
  else match env.getRequestData (env.mspIDFromPKIID conn) digests with
    | .error (.panic msg) => .error (.panic msg)
    | .error _ => .ok none
    | .ok responses => .ok (some responses)

/-- `validateBlockDataType`: "validate-block". -/
def validateBlockDataType : GoString :=
  [118, 97, 108, 105, 100, 97, 116, 101, 45, 98, 108, 111, 99, 107]

/-- `handleValidateRequest`: the response that is sent before it returns. The header is
dereferenced for the number, and the data for the log, unless the block is old. -/
def handleValidateRequest (request : Bytes) : Except Err (Option Bytes) :=
  match env.unmarshalBlock request with
  | .error _ => .ok none
  | .ok block => match block.header with
    | none => .error nilPointer
    | some number =>
      if number < env.ledgerHeight then .ok none
      else match block.data with
        | none => .error nilPointer
        | some data =>
          if number = env.ledgerHeight then .ok (env.validatePartial number data) else .ok none

/-- `cacheUpdatesDataType`: "cache-updates". -/
def cacheUpdatesDataType : GoString :=
  [99, 97, 99, 104, 101, 45, 117, 112, 100, 97, 116, 101, 115]

/-- `handleCacheUpdatesRequest`: the response is nil if there are no updates for the block. -/
def handleCacheUpdatesRequest (request : Bytes) : Option (Option Bytes) :=
  match env.unmarshalCacheUpdatesRequest request with
  | .error _ => none
  | .ok blockNum => some (env.getCacheUpdatesForBlock blockNum)

/-- `HandlerForType`: the handler that is registered, with its response, if it sends one. -/
def handlerForType (dataType : GoString) : Option (Bytes → Except Err (Option (Option Bytes))) :=
  if (env.validatesBlocks && !env.isCommitter) && dataType == validateBlockDataType then
    some fun request => (env.handleValidateRequest request).map (Option.map some)
  else if env.isCommitter && dataType == cacheUpdatesDataType then
    some fun request => .ok (env.handleCacheUpdatesRequest request)
  else none

/-- `handleAppDataRequest`: the response, or none. Without a handler it is nil, which is
sent. -/
def handleAppDataRequest (dataType : GoString) (request : Bytes) :
    Except Err (Option (Option Bytes)) :=
  match env.handlerForType dataType with
  | none => .ok (some none)
  | some handleRequest => handleRequest request

end Providers

/-! ## §4 Consumers -/

/-- The peers a validation request is sent to, by endpoint. `GetValidatingPeers` takes them
from a map, and without a remote peer there is no request. -/
structure ValidatingPeers where
  endpoints : List GoString
  nodup : endpoints.Nodup
  nonempty : endpoints ≠ []

/-- Who has made a request, and for what. -/
inductive Asker where
  | offLedger (key : MultiKey)
  | transientData (key : StoreKey)
  | appData (peers : ValidatingPeers)
  | cacheUpdates

/-- What the retrievers return. -/
inductive Retrieved where
  | values (values : List (Option ExpiringValue))
  | value (value : Option ExpiringValue)
  | results (values : List (Option Results))
  | updates (response : Bytes)

/-- `AsElements`: a type assertion. -/
def asElements : Data → Except Err (List Element)
  | .elements elements => .ok elements
  | .bytes _ => .error typeAssertion

/-- `Elements.Get`. -/
def getElement (elements : List Element) (ns coll key : GoString) : Option Element :=
  elements.find? fun e => e.namespaceName = ns ∧ e.collection = coll ∧ e.key = key

def Element.expiringValue (e : Element) : Option ExpiringValue :=
  e.value.map fun value => ⟨some value, e.expiry⟩

/-- `getData` of the off-ledger retriever, after the response. -/
def getOffLedgerData (key : MultiKey) (data : Data) : Except Err (List (Option ExpiringValue)) :=
  match asElements data with
  | .error e => .error e
  | .ok elements => collect (fun k =>
      match getElement elements key.namespaceName key.collection k with
      | none => .error (.plain "the response does not contain a value for key")
      | some d => .ok d.expiringValue) key.keys

/-- `retriever.findValue`. -/
def findValue (key : StoreKey) (data : Data) : Except Err (Option ExpiringValue) :=
  match asElements data with
  | .error e => .error e
  | .ok elements => match getElement elements key.namespaceName key.collection key.key with
    | none => .error (.plain "expecting a response to a transient data request")
    | some e => .ok e.expiringValue

/-- The response handler of `getResponseHandler`: an endpoint that is not known has the
index 0. -/
def handleValidationResponse (env : Providers) (peers : ValidatingPeers) (response : Bytes) :
    Except Err (List (Option Results)) :=
  match liftErr (env.unmarshalResults response) with
  | .error e => .error e
  | .ok vr =>
    let values : List (Option Results) := List.replicate peers.endpoints.length none
    let idx := if vr.endpoint ∈ peers.endpoints then peers.endpoints.idxOf vr.endpoint else 0
    if idx < values.length then .ok (values.set idx (some vr))
    else .error (.panic "index out of range")

/-- `Retriever.getData`, after the response. -/
def getAppData (env : Providers) (peers : ValidatingPeers) :
    Data → Except Err (List (Option Results))
  | .elements _ => .error typeAssertion
  | .bytes response => handleValidationResponse env peers response

/-- `getData` with the response handler of `UpdateCache`, which takes the bytes as they are. -/
def getCacheUpdates : Data → Except Err Bytes
  | .elements _ => .error typeAssertion
  | .bytes response => .ok response

def Asker.consume (env : Providers) (data : Data) : Asker → Except Err Retrieved
  | .offLedger key => match getOffLedgerData key data with
    | .error e => .error e
    | .ok values => .ok (.values values)
  | .transientData key => match findValue key data with
    | .error e => .error e
    | .ok value => .ok (.value value)
  | .appData peers => match getAppData env peers data with
    | .error e => .error e
    | .ok values => .ok (.results values)
  | .cacheUpdates => match getCacheUpdates data with
    | .error e => .error e
    | .ok response => .ok (.updates response)

/-! ## §3 Dispatch -/

/-- The `Dispatcher` with its request manager. -/
structure Peer where
  mgr : ChannelMgr
  askers : List Asker

/-- The peer after `Dispatch`, and what it has sent. -/
structure Dispatched where
  peer : Peer
  handled : Bool
  sent : Option GossipContent

/-- `Dispatcher.Dispatch`. -/
def Peer.dispatch (env : Providers) (p : Peer) (msg : GossipReceived) : Except Err Dispatched :=
  let conn := msg.connectionInfo
  let mspID := env.mspIDFromPKIID conn
  match msg.content with
  | .collDataReq nonce digests => match env.handleDataRequest conn digests with
    | .error e => .error e
    | .ok responses => .ok ⟨p, true, responses.map (.collDataRes nonce)⟩
  | .collDataRes nonce elements =>
    if mspID = [] then .ok ⟨p, true, none⟩
    else match getResponseData elements with
      | .error e => .error e
      | .ok _ =>
        .ok ⟨⟨p.mgr.handleDataResponse conn mspID nonce elements, p.askers⟩, true, none⟩
  | .appDataReq nonce dataType request => match env.handleAppDataRequest dataType request with
    | .error e => .error e
    | .ok response => .ok ⟨p, true, response.map (.appDataRes nonce)⟩
  | .appDataRes nonce response =>
    .ok ⟨⟨p.mgr.handleAppDataResponse conn mspID nonce (response.getD []), p.askers⟩, true, none⟩
  | .other => .ok ⟨p, false, none⟩

/-- `GetResponse` of a request returns what is in its channel, and the asker consumes it;
nothing happens if there is no response or `GetResponse` has returned before. -/
def Peer.consume (env : Providers) (p : Peer) (i : Nat) : Except Err (Option Retrieved) :=
  match p.mgr.made[i]?, p.askers[i]? with
  | some r, some asker =>
    if r.done || r.result.isSome then .ok none
    else match r.respChan with
      | none => .ok none
      | some d => match asker.consume env d.response.data with
        | .error e => .error e
        | .ok retrieved => .ok (some retrieved)
  | _, _ => .ok none

/-! ## Steps -/

/-- What can happen on a peer. -/
inductive PeerStep where
  | ask (asker : Asker) (peers : List RemotePeer)
  | receive (msg : GossipReceived)
  | take (i : Nat)
  | giveUp (i : Nat)
  | cancel (i : Nat)

/-- The peer after a step; a panic ends the process. While a handler holds the lock of the
manager no request is made. -/
def Peer.step (env : Providers) (p : Peer) : PeerStep → Except Err Peer
  | .ask asker peers =>
    if p.mgr.readLocked then .ok p else .ok ⟨p.mgr.ask peers, p.askers ++ [asker]⟩
  | .receive msg => match p.dispatch env msg with
    | .error e => .error e
    | .ok result => .ok result.peer
  | .take i => match p.consume env i with
    | .error (.panic msg) => .error (.panic msg)
    | _ => .ok { p with mgr := p.mgr.take i }
  | .giveUp i => .ok { p with mgr := p.mgr.giveUp i }
  | .cancel i => .ok { p with mgr := p.mgr.cancel i }

def Peer.start : Peer := ⟨newChannelMgr, []⟩

end FabricPeerExt.Gossip
