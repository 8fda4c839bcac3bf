/-
FabricPeerExt.Gossip.RequestMgr — requests to other peers and the responses to them,
`pkg/common/requestmgr/requestmgr.go`.

`ask` is `NewRequest` and the `Send` after it, `receive` is `Dispatch` for one message, `take` and
`giveUp` are the cases of the `select` in `GetResponse`, and `cancel` is the deferred `Cancel`. A
handler with no room in the channel waits in `respond` and holds the read lock.
-/
import FabricPeerExt.Lib.Run
import FabricPeerExt.PvtData.Types

namespace FabricPeerExt.Gossip

open Lib
open PvtData (GoString Err)

/-! ## Messages -/

abbrev PkiID := Bytes

/-- A peer to ask. -/
structure RemotePeer where
  endpoint : GoString
  pkiID : PkiID
  deriving DecidableEq

/-- Who has sent a message. -/
structure ConnectionInfo where
  endpoint : GoString
  id : PkiID

/-- `gossip.CollDataDigest`. -/
structure CollDataDigest where
  namespaceName : GoString
  collection : GoString
  key : GoString

/-- `gproto.CollDataElement`: pointers may be nil. The expiry is in seconds. -/
structure CollDataElement where
  digest : Option CollDataDigest
  value : Option Bytes
  expiryTime : Option Int

/-- The two kinds of responses, with the number of the request. -/
inductive Content where
  | collDataRes (nonce : UInt64) (elements : List CollDataElement)
  | appDataRes (nonce : UInt64) (response : Bytes)
  | other

structure ReceivedMessage where
  content : Content
  connectionInfo : ConnectionInfo

/-- `Element`. -/
structure Element where
  namespaceName : GoString
  collection : GoString
  key : GoString
  value : Option Bytes
  expiry : Option Int

/-- The data of a response, by its kind. -/
inductive Data where
  | elements (elements : List Element)
  | bytes (response : Bytes)

/-- `Response`. Nothing sets a signature or an identity. -/
structure Response where
  endpoint : GoString
  mspID : GoString
  data : Data

/-- `Dispatcher.getResponseData`. -/
def getResponseData : List CollDataElement → Except Err (List Element) :=
  collect fun e => match e.digest with
    | none => .error (.panic "invalid memory address or nil pointer dereference")
    | some d => .ok ⟨d.namespaceName, d.collection, d.key, e.value, e.expiryTime⟩

/-! ## State -/

/-- A response on its way to a request, and who has sent the message it came in. No code
reads the sender. -/
structure Delivery where
  sender : PkiID
  response : Response

/-- `request`, with the peers `getData` has sent it to and what `GetResponse` has returned:
a response, or nothing if the context was done. -/
structure Request where
  reqID : UInt64
  peers : List RemotePeer
  respChan : Option Delivery
  waiting : List Delivery
  result : Option (Option Delivery)
  done : Bool

/-- `newRequest`. -/
def newRequest (reqID : UInt64) (peers : List RemotePeer) : Request :=
  ⟨reqID, peers, none, [], none, false⟩

/-- `channelMgr`: `requests` has positions in the list of the requests made. -/
structure ChannelMgr where
  requests : GoMap UInt64 Nat
  nextRequestID : UInt64
  made : List Request

/-- `newChannelMgr`. -/
def newChannelMgr : ChannelMgr := ⟨∅, 1000000000, []⟩

namespace ChannelMgr

variable (mgr : ChannelMgr)

def readLocked : Bool := mgr.made.any fun r => !r.waiting.isEmpty

def lookup (reqID : UInt64) : Option (Nat × Request) :=
  (mgr.requests.lookup reqID).bind fun i => (mgr.made[i]?).map fun r => (i, r)

def update (i : Nat) (r : Request) : ChannelMgr := { mgr with made := mgr.made.set i r }

end ChannelMgr

/-! ## Steps -/

/-- `request.respond`. -/
def Request.respond (r : Request) (d : Delivery) : Request :=
  match r.respChan with
  | none => { r with respChan := some d }
  | some _ => { r with waiting := r.waiting ++ [d] }

def Request.take (r : Request) (d : Delivery) : Request :=
  { r with respChan := r.waiting.head?, waiting := r.waiting.tail, result := some (some d) }

namespace ChannelMgr

variable (mgr : ChannelMgr)

/-- `channelMgr.NewRequest`, and the `Send` after it. -/
def ask (peers : List RemotePeer) : ChannelMgr :=
  if mgr.readLocked then mgr else
    let reqID := mgr.nextRequestID + 1
    ⟨mgr.requests.insert reqID mgr.made.length, reqID, mgr.made ++ [newRequest reqID peers]⟩

/-- `channelMgr.Respond`. -/
def respond (reqID : UInt64) (d : Delivery) : ChannelMgr :=
  match mgr.lookup reqID with
  | none => mgr
  | some (i, r) => mgr.update i (r.respond d)

/-- `handleDataResponse`. `mspID` is what discovery knows for the PKI-ID, "" for nothing. -/
def handleDataResponse (conn : ConnectionInfo) (mspID : GoString) (nonce : UInt64)
    (elements : List CollDataElement) : ChannelMgr :=
  if mspID = [] then mgr else
    match getResponseData elements with
    | .error _ => mgr
    | .ok data => mgr.respond nonce ⟨conn.id, conn.endpoint, mspID, .elements data⟩

/-- `Dispatcher.handleAppDataResponse`. -/
def handleAppDataResponse (conn : ConnectionInfo) (mspID : GoString) (nonce : UInt64)
    (response : Bytes) : ChannelMgr :=
  if mspID = [] then mgr
  else mgr.respond nonce ⟨conn.id, conn.endpoint, mspID, .bytes response⟩

def dispatch (msg : ReceivedMessage) (mspID : GoString) : ChannelMgr :=
  match msg.content with
  | .collDataRes nonce elements =>
    mgr.handleDataResponse msg.connectionInfo mspID nonce elements
  | .appDataRes nonce response =>
    mgr.handleAppDataResponse msg.connectionInfo mspID nonce response
  | .other => mgr

/-- `request.GetResponse`: a response has arrived. -/
def take (i : Nat) : ChannelMgr :=
  match mgr.made[i]? with
  | none => mgr
  | some r => if r.done || r.result.isSome then mgr else
    match r.respChan with
    | none => mgr
    | some d => mgr.update i (r.take d)

def giveUp (i : Nat) : ChannelMgr :=
  match mgr.made[i]? with
  | none => mgr
  | some r =>
    if r.done || r.result.isSome then mgr else mgr.update i { r with result := some none }

/-- `request.Cancel`, by `channelMgr.remove`. -/
def cancel (i : Nat) : ChannelMgr :=
  match mgr.made[i]? with
  | none => mgr
  | some r => if mgr.readLocked || r.result.isNone then mgr else
    { mgr.update i { r with done := true } with requests := mgr.requests.erase r.reqID }

end ChannelMgr

/-- The steps of the goroutines that use the manager. -/
inductive Step where
  | ask (peers : List RemotePeer)
  | receive (msg : ReceivedMessage) (mspID : GoString)
  | take (i : Nat)
  | giveUp (i : Nat)
  | cancel (i : Nat)

def Step.step (mgr : ChannelMgr) : Step → ChannelMgr
  | .ask peers => mgr.ask peers
  | .receive msg mspID => mgr.dispatch msg mspID
  | .take i => mgr.take i
  | .giveUp i => mgr.giveUp i
  | .cancel i => mgr.cancel i

end FabricPeerExt.Gossip
