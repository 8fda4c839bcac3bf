/-
FabricPeerExt.Txn.ProprespValidator — the validation of proposal responses,
`pkg/txn/proprespvalidator/validator.go`.

Messages are decoded by `Protos`; `Ledger` is the committed state, `Crypto` the identities and the
policy evaluator. The state of the validator is its cache of definitions. The responses have no
nil pointers.
-/
import FabricPeerExt.Lib.LoaderCache
import FabricPeerExt.Txn.RwSet
import FabricPeerExt.Validation.Results
import Mathlib.Data.List.Infix

namespace FabricPeerExt.Txn

open Lib
open PvtData (GoString Err liftErr wrapErr)
open Validation (SignedData)

/-! ## Messages -/

/-- `pb.Endorsement`. -/
structure Endorsement where
  endorser : Bytes
  signature : Bytes
  deriving DecidableEq

structure Response where
  status : Int
  payload : Bytes
  deriving DecidableEq

/-- `pb.ProposalResponse`. -/
structure ProposalResponse where
  response : Option Response
  payload : Bytes
  endorsement : Option Endorsement
  deriving DecidableEq

structure ChaincodeID where
  name : GoString
  version : GoString
  deriving DecidableEq

/-- `pb.ChaincodeAction`. -/
structure ChaincodeAction where
  chaincodeId : Option ChaincodeID
  results : Bytes
  events : Option Bytes

structure SerializedIdentity where
  mspid : GoString
  idBytes : Bytes
  deriving DecidableEq

/-- `chaincodeDefinition`. -/
structure ChaincodeDefinition where
  version : GoString
  policy : Bytes
  deriving DecidableEq

structure ChaincodeInfo where
  version : GoString
  validationParameter : Bytes
  deriving DecidableEq

/-- The unmarshallers of the messages. -/
structure Protos where
  /-- The payload of a `pb.Proposal`. -/
  unmarshalProposal : Bytes → Except String Bytes
  /-- The input of a `pb.ChaincodeProposalPayload`. -/
  unmarshalChaincodeProposalPayload : Bytes → Except String Bytes
  /-- The chaincode spec of a `pb.ChaincodeInvocationSpec`, and its chaincode ID. -/
  unmarshalChaincodeInvocationSpec : Bytes → Except String (Option (Option ChaincodeID))
  /-- The extension of a `pb.ProposalResponsePayload`. -/
  unmarshalProposalResponsePayload : Bytes → Except String Bytes
  unmarshalChaincodeAction : Bytes → Except String ChaincodeAction
  /-- The chaincode ID of a `pb.ChaincodeEvent`. -/
  unmarshalChaincodeEvent : Bytes → Except String GoString
  unmarshalSerializedIdentity : Bytes → Except String SerializedIdentity
  /-- `TxRwSet.FromProtoBytes` -/
  txRwSetFromProtoBytes : Bytes → Except String TxRwSet
  /-- The signature policy of a `pb.ApplicationPolicy`, as bytes, if it is one. -/
  unmarshalApplicationPolicy : Bytes → Except String (Option Bytes)
  /-- The version and the policy of a `ccprovider.ChaincodeData`. -/
  unmarshalChaincodeData : Bytes → Except String ChaincodeDefinition

/-- The committed state: `ChaincodeInfo` of the lifecycle, and `GetState` of `lscc`. -/
structure Ledger where
  chaincodeInfo : GoString → Except String ChaincodeInfo
  getState : GoString → Except String Bytes

structure Identity where
  validate : Except String Unit
  verify : Bytes → Bytes → Except String Unit

/-- The identities, and the evaluation of policies. -/
structure Crypto where
  deserializeIdentity : Bytes → Except String Identity
  evaluate : Bytes → List SignedData → Except String Unit

/-- `pb.TxValidationCode`, the codes that are used. -/
inductive TxValidationCode where
  | valid
  | invalidOtherReason
  | badRwset
  | illegalWriteset
  | expiredChaincode
  | endorsementPolicyFailure
  deriving DecidableEq, Repr

abbrev Verdict := Except (TxValidationCode × Err) Unit

def Verdict.code : Verdict → TxValidationCode
  | .ok () => .valid
  | .error (code, _) => code

def otherReason {α : Type} : Except Err α → Except (TxValidationCode × Err) α
  | .ok a => .ok a
  | .error e => .error (.invalidOtherReason, e)

/-! ## Definitions of chaincodes -/

def errUnknownChaincode : String := "unknown chaincode"

section
variable (protos : Protos) (ledger : Ledger)

/-- `createLifecycleCCDefinition`: nothing if the lifecycle does not know the chaincode. A
policy that is not a signature policy cannot be marshalled. -/
def createLifecycleCCDefinition (ccName : GoString) : Except Err (Option ChaincodeDefinition) :=
  match ledger.chaincodeInfo ccName with
  | .error e =>
    if errUnknownChaincode.toList <:+: e.toList then .ok none else .error (.plain e)
  | .ok ccInfo =>
    match wrapErr "unable to unmarshal application policy for chaincode"
        (liftErr (protos.unmarshalApplicationPolicy ccInfo.validationParameter)) with
    | .error e => .error e
    | .ok none => .error (.wrap "unable to marshal signature policy for chaincode"
        (.plain "proto: Marshal called with nil"))
    | .ok (some policyBytes) => .ok (some ⟨ccInfo.version, policyBytes⟩)

/-- `validator.createLSCCDefinition`. -/
def createLSCCDefinition (ccName : GoString) : Except Err ChaincodeDefinition :=
  match wrapErr "Could not retrieve state for chaincode" (liftErr (ledger.getState ccName)) with
  | .error e => .error e
  | .ok [] => .error (.plain "lscc's state not found.")
  | .ok ccDataBytes => wrapErr "unmarshalling ChaincodeQueryResponse failed"
      (liftErr (protos.unmarshalChaincodeData ccDataBytes))

/-- `validator.createCCDefinition`. -/
def createCCDefinition (ccName : GoString) : Except Err ChaincodeDefinition :=
  match createLifecycleCCDefinition protos ledger ccName with
  | .error e => .error e
  | .ok (some ccDef) => .ok ccDef
  | .ok none => createLSCCDefinition protos ledger ccName

end

/-! ## The responses -/

section
variable (crypto : Crypto)

/-- `validator.validateSignature`. -/
def validateSignature (res : ProposalResponse) : Except Err Unit :=
  match res.endorsement with
  | none => .error (.plain "missing endorsement in proposal response")
  | some endorsement =>
    match wrapErr "unable to deserialize identity"
        (liftErr (crypto.deserializeIdentity endorsement.endorser)) with
    | .error e => .error e
    | .ok identity =>
      match wrapErr "the creator certificate is not valid" (liftErr identity.validate) with
      | .error e => .error e
      | .ok () => wrapErr "the creator's signature over the proposal response is not valid"
          (liftErr (identity.verify (res.payload ++ endorsement.endorser) endorsement.signature))

/-- The status of a response is accepted: from `SUCCESS`, 200, to below `BAD_REQUEST`, 400. -/
def Response.succeeded (response : Response) : Bool :=
  !(response.status < 200 || response.status ≥ 400)

/-- `validator.validateResponse`. -/
def validateResponse (res : ProposalResponse) : Except Err Unit :=
  match res.response with
  | none => .error (.plain "nil chaincode response")
  | some response =>
    if !response.succeeded then .error (.plain "failed chaincode response status")
    else validateSignature crypto res

/-- `matches`. -/
def ProposalResponse.matches (r1 r2 : ProposalResponse) : Bool :=
  match r1.response, r2.response with
  | some p1, some p2 => p1.status == p2.status && r1.payload == r2.payload &&
      p1.payload == p2.payload
  | _, _ => false

def validateRest (r1 : ProposalResponse) : List ProposalResponse → Except Err Unit
  | [] => .ok ()
  | r :: rs => match validateResponse crypto r with
    | .error e => .error e
    | .ok () =>
      if !r1.matches r then .error (.plain "one or more proposal responses do not match")
      else validateRest r1 rs

/-- `validator.validateResponses`. -/
def validateResponses : List ProposalResponse → Except Err Unit
  | [] => .error (.plain "no proposal responses")
  | r1 :: rs => match validateResponse crypto r1 with
    | .error e => .error e
    | .ok () => validateRest crypto r1 rs

end

/-! ## The chaincode action -/

section
variable (protos : Protos)

/-- `getChaincodeInvocationSpec`. -/
def getChaincodeInvocationSpec (payload : Bytes) : Except Err (Option (Option ChaincodeID)) :=
  match wrapErr "failed GetChaincodeInvocationSpec"
      (liftErr (protos.unmarshalChaincodeProposalPayload payload)) with
  | .error e => .error e
  | .ok input => wrapErr "failed GetChaincodeInvocationSpec"
      (liftErr (protos.unmarshalChaincodeInvocationSpec input))

/-- `getCCSpec`. -/
def getCCSpec (proposalBytes : Bytes) : Except Err (Option ChaincodeID) :=
  match wrapErr "failed to extract proposal from proposal bytes"
      (liftErr (protos.unmarshalProposal proposalBytes)) with
  | .error e => .error e
  | .ok payload =>
    match wrapErr "failed to get chaincode invocation spec"
        (getChaincodeInvocationSpec protos payload) with
    | .error e => .error e
    | .ok none => .error (.plain "chaincode spec is nil")
    | .ok (some chaincodeId) => .ok chaincodeId

/-- `getChaincodeAction`. -/
def getChaincodeAction (prespBytes : Bytes) : Except Err ChaincodeAction :=
  match wrapErr "failed to unmarshal proposal response payload"
      (liftErr (protos.unmarshalProposalResponsePayload prespBytes)) with
  | .error e => .error e
  | .ok extension => liftErr (protos.unmarshalChaincodeAction extension)

def validateEvent (ccID : GoString) : Option Bytes → Except Err Unit
  | none => .ok ()
  | some events =>
    match wrapErr "invalid chaincode event" (liftErr (protos.unmarshalChaincodeEvent events)) with
    | .error e => .error e
    | .ok eventCC =>
      if eventCC ≠ ccID then
        .error (.plain "chaincode event chaincode id does not match chaincode action chaincode id")
      else .ok ()

/-- `validateChaincodeAction`. -/
def validateChaincodeAction (proposal : Bytes) (action : ChaincodeAction) :
    Except Err ChaincodeID :=
  match getCCSpec protos proposal with
  | .error e => .error e
  | .ok none => .error (.plain "nil ChaincodeId in header extension")
  | .ok (some ccID) => match action.chaincodeId with
    | none => .error (.plain "nil ChaincodeId in ChaincodeAction")
    | some cc =>
      if ccID.name = [] then .error (.plain "invalid chaincode ID in proposal")
      else if ccID.name ≠ cc.name then .error (.plain "inconsistent chaincode ID info")
      else if cc.version = [] then .error (.plain "invalid chaincode version in ChaincodeAction")
      else match validateEvent protos ccID.name action.events with
        | .error e => .error e
        | .ok () => .ok cc

/-- "lscc" -/
def lsccNamespace : GoString := [108, 115, 99, 99]

/-- `txWritesToNamespace`. -/
def txWritesToNamespace (ns : NsRwSet) : Bool :=
  ns.writes || ns.collHashedRwSets.any CollHashedRwSet.writes

def writtenNamespaces (cc : ChaincodeID) : TxRwSet → Except (TxValidationCode × Err) (List GoString)
  | [] => .ok []
  | ns :: rest =>
    if !txWritesToNamespace ns then writtenNamespaces cc rest
    else if ns.nameSpace = lsccNamespace then
      .error (.illegalWriteset, .plain "chaincode attempted to write to the namespace of LSCC")
    else match writtenNamespaces cc rest with
      | .error e => .error e
      | .ok names => .ok (if ns.nameSpace ≠ cc.name then ns.nameSpace :: names else names)

/-- `getNamespacesFromWriteSets`. -/
def getNamespacesFromWriteSets (cc : ChaincodeID) (results : Bytes) :
    Except (TxValidationCode × Err) (List GoString) :=
  match protos.txRwSetFromProtoBytes results with
  | .error e => .error (.badRwset, .wrap "txRWSet.FromProtoBytes failed" (.plain e))
  | .ok txRWSet => writtenNamespaces cc txRWSet

/-! ## Policies -/

def signedData (prespBytes : Bytes) (endorsement : Endorsement) : SignedData :=
  ⟨prespBytes ++ endorsement.endorser, endorsement.endorser, endorsement.signature⟩

/-- The loop of `deduplicateIdentity`: `seen` are the keys of `signatureMap`. -/
def deduplicateLoop (prespBytes : Bytes) :
    List Bytes → List Endorsement → Except Err (List SignedData)
  | _, [] => .ok []
  | seen, endorsement :: rest =>
    match wrapErr "Unmarshal endorser error"
        (liftErr (protos.unmarshalSerializedIdentity endorsement.endorser)) with
    | .error e => .error e
    | .ok serializedIdentity =>
      let identity := serializedIdentity.mspid ++ serializedIdentity.idBytes
      if identity ∈ seen then deduplicateLoop prespBytes seen rest
      else match deduplicateLoop prespBytes (identity :: seen) rest with
        | .error e => .error e
        | .ok signatureSet => .ok (signedData prespBytes endorsement :: signatureSet)

/-- `deduplicateIdentity`. -/
def deduplicateIdentity (prespBytes : Bytes) (endorsements : List Endorsement) :
    Except Err (List SignedData) := deduplicateLoop protos prespBytes [] endorsements

variable (crypto : Crypto)

/-- `validatePolicyForCC`: every error is a `VSCCEndorsementPolicyError`. -/
def validatePolicyForCC (prespBytes : Bytes) (endorsements : List Endorsement)
    (policyBytes : Bytes) : Except Err Unit :=
  match deduplicateIdentity protos prespBytes endorsements with
  | .error e => .error e
  | .ok signatureSet => match crypto.evaluate policyBytes signatureSet with
    | .ok () => .ok ()
    | .error e =>
      if signatureSet.length < endorsements.length then
        .error (.plain ("Endorsement policy evaluation failure might be caused by duplicated " ++
          "identities"))
      else .error (.wrap "VSCC error: endorsement policy failure" (.plain e))

/-- `validator.validateEndorsementPolicy`. -/
def validateDefinition (cc : ChaincodeID) (prespBytes : Bytes) (endorsements : List Endorsement)
    (ccID : GoString) (ccd : Except Err ChaincodeDefinition) : Verdict :=
  match ccd with
  | .error e => .error (.invalidOtherReason, e)
  | .ok ccd =>
    if ccID = cc.name ∧ ccd.version ≠ cc.version then
      .error (.expiredChaincode, .plain "chaincode didn't match in lscc")
    else match validatePolicyForCC protos crypto prespBytes endorsements ccd.policy with
      | .error e => .error (.endorsementPolicyFailure, e)
      | .ok () => .ok ()

/-- The cache of a `validator`. -/
abbrev DefinitionCache := GoMap GoString ChaincodeDefinition

variable (ledger : Ledger)

/-- The loop of `validateEndorsements`, with the cache after it. `getCCDefinition` reads
through the cache. -/
def validateNamespaces (cc : ChaincodeID) (prespBytes : Bytes) (endorsements : List Endorsement) :
    List GoString → DefinitionCache → Verdict × DefinitionCache
  | [], cache => (.ok (), cache)
  | ns :: rest, cache =>
    let (ccd, cache) := cache.getOrLoad (createCCDefinition protos ledger) ns
    match validateDefinition protos crypto cc prespBytes endorsements ns ccd with
    | .error e => (.error e, cache)
    | .ok () => validateNamespaces cc prespBytes endorsements rest cache

/-- What `validateEndorsements` finds before it looks up definitions: the chaincode and the
namespaces whose policies are evaluated. -/
def namespacesToValidate (proposal prespBytes : Bytes) :
    Except (TxValidationCode × Err) (ChaincodeID × List GoString) :=
  match otherReason (getChaincodeAction protos prespBytes) with
  | .error e => .error e
  | .ok action => match otherReason (validateChaincodeAction protos proposal action) with
    | .error e => .error e
    | .ok cc => match getNamespacesFromWriteSets protos cc action.results with
      | .error e => .error e
      | .ok wrAdditionalNamespaces => .ok (cc, cc.name :: wrAdditionalNamespaces)

/-- `validator.validateEndorsements`. -/
def validateEndorsements (cache : DefinitionCache) (proposal prespBytes : Bytes)
    (endorsements : List Endorsement) : Verdict × DefinitionCache :=
  match namespacesToValidate protos proposal prespBytes with
  | .error e => (.error e, cache)
  | .ok (cc, wrNamespace) =>
    validateNamespaces protos crypto ledger cc prespBytes endorsements wrNamespace cache

def prespBytes (responses : List ProposalResponse) : Bytes :=
  (responses.head?.map ProposalResponse.payload).getD []

/-- The endorsements of the responses; none is missing once the responses are validated. -/
def endorsements (responses : List ProposalResponse) : List Endorsement :=
  responses.filterMap ProposalResponse.endorsement

/-- `validator.Validate`. -/
def validate (cache : DefinitionCache) (proposal : Bytes) (responses : List ProposalResponse) :
    Verdict × DefinitionCache :=
  match otherReason (validateResponses crypto responses) with
  | .error e => (.error e, cache)
  | .ok () => validateEndorsements protos crypto ledger cache proposal (prespBytes responses)
      (endorsements responses)

end

end FabricPeerExt.Txn
