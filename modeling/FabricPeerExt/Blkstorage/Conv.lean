/-
FabricPeerExt.Blkstorage.Conv — blocks as CouchDB documents, `couchdoc_conv.go` and
`block_serialization.go` of `pkg/blkstorage/cdbblkstorage`.

A document's JSON value is a map from field names; JSON texts are left out. Every block has a
header. Unmarshalling the messages inside a block is in `Externals`.
-/
import FabricPeerExt.Lib.Strconv
import FabricPeerExt.PvtData.Types

namespace FabricPeerExt.Blkstorage

open Lib
open PvtData (GoString Err)

def text (s : GoString) : String := String.ofList (s.map fun c => Char.ofNat c.toNat)

/-! ## Messages -/

/-- `common.BlockHeader`. -/
structure BlockHeader where
  number : UInt64
  previousHash : Bytes
  dataHash : Bytes
  deriving DecidableEq, Repr

/-- `common.Block`. -/
structure Block where
  header : BlockHeader
  data : List Bytes
  metadata : List Bytes
  deriving DecidableEq, Repr

/-- `common.Envelope`. -/
structure Envelope where
  payload : Bytes
  signature : Bytes
  deriving DecidableEq, Repr

/-- `common.Payload`: the channel header of its header, which may be nil. -/
structure Payload where
  channelHeader : Option Bytes
  deriving DecidableEq, Repr

/-- `common.ChannelHeader`, with the fields that are read. -/
structure ChannelHeader where
  type : Int
  txId : GoString
  deriving DecidableEq, Repr

def transactionsFilter : Nat := 2

/-- Hashing and unmarshalling, which the store calls. -/
structure Externals where
  /-- `EncodeVarint` and `DecodeVarint` of `proto.Buffer` -/
  varint : Varint
  /-- `proto.Marshal` and `proto.Unmarshal` of a block -/
  block : Marshaler Block
  /-- The header of a block is written even if it is empty. -/
  marshal_block_ne_nil : ∀ {b : Block} {bs : Bytes}, block.marshal b = .ok bs → bs ≠ []
  /-- `protoutil.BlockHeaderHash`, a SHA-256 hash -/
  blockHeaderHash : BlockHeader → Bytes
  length_blockHeaderHash : ∀ h, (blockHeaderHash h).length = 32
  /-- `protoutil.GetEnvelopeFromBlock` -/
  getEnvelopeFromBlock : Bytes → Except String Envelope
  /-- `util.ExtractPayload` -/
  extractPayload : Envelope → Except String Payload
  /-- `protoutil.UnmarshalChannelHeader` -/
  unmarshalChannelHeader : Bytes → Except String ChannelHeader

/-! ## Documents -/

/-- The names of the fields of documents. -/
inductive Field where
  | header
  | transactions
  | blockNumber
  | blockHash
  | validationCode
  | height
  deriving DecidableEq, Repr

/-- A JSON value of a document: a text, the object under `header`, or the array under
`transactions`. -/
inductive JsonValue where
  | string (s : GoString)
  | header (hash : GoString)
  | transactions (ids : List GoString)
  deriving DecidableEq, Repr

inductive AttachmentName where
  | block
  | checkpointinfo
  | transaction
  deriving DecidableEq, Repr

/-- A document: its JSON value without the id and the revision, and its attachments. -/
structure Body where
  fields : GoMap Field JsonValue
  attachments : List (AttachmentName × Bytes)
  deriving DecidableEq

/-- The database as a store of documents with revisions. -/
abbrev CouchDB := DocStore Body

/-- `blkMgrInfoKey`, the text "blkMgrInfo" -/
def blkMgrInfoKey : GoString := [98, 108, 107, 77, 103, 114, 73, 110, 102, 111]

/-- `preResetHeightKey`, the text "preResetHeight" -/
def preResetHeightKey : GoString :=
  [112, 114, 101, 82, 101, 115, 101, 116, 72, 101, 105, 103, 104, 116]

/-- `blockNumberToKey`. -/
def blockNumberToKey (blockNum : UInt64) : GoString := formatUint blockNum

def attachmentBytes (name : AttachmentName) (attachments : List (AttachmentName × Bytes)) : Bytes :=
  attachments.foldl (fun acc a => if a.1 = name then a.2 else acc) []

/-! ## Transactions of a block -/

section
variable (x : Externals)

/-- `extractTxIDFromEnvelope`: an envelope whose payload cannot be read has no ID, and a
payload without a header is dereferenced. -/
def extractTxIDFromEnvelope (txEnvelope : Envelope) : Except Err GoString :=
  match x.extractPayload txEnvelope with
  | .error _ => .ok []
  | .ok payload => match payload.channelHeader with
    | none => .error (.panic "invalid memory address or nil pointer dereference")
    | some bytes => match x.unmarshalChannelHeader bytes with
      | .error e => .error (.plain e)
      | .ok channelHeader => .ok channelHeader.txId

def envelopeAndTxID (txEnvelopeBytes : Bytes) : Except Err (Envelope × GoString) :=
  match x.getEnvelopeFromBlock txEnvelopeBytes with
  | .error e => .error (.plain e)
  | .ok envelope => match extractTxIDFromEnvelope x envelope with
    | .error e => .error e
    | .ok txID => .ok (envelope, txID)

/-- `extractTxnEnvelopeFromBlock`. -/
def extractTxnEnvelopeFromBlock (txID : GoString) : List Bytes → Except Err Envelope
  | [] => .error (.plain s!"transaction not found [{text txID}]")
  | txEnvelopeBytes :: rest => match envelopeAndTxID x txEnvelopeBytes with
    | .error e => .error e
    | .ok (envelope, id) =>
      if id ≠ txID then extractTxnEnvelopeFromBlock txID rest else .ok envelope

/-- `extractEnvelopeFromBlock`; the bound is computed in unsigned numbers. -/
def extractEnvelopeFromBlock (block : Block) (tranNum : UInt64) : Except Err Envelope :=
  let envelopesLen := UInt64.ofNat block.data.length
  if envelopesLen - 1 < tranNum then
    .error (.plain ("transaction number is invalid " ++
      s!"[{block.header.number}, {envelopesLen}, {tranNum}]"))
  else match block.data[tranNum.toNat]? with
    | none => .error (.panic "index out of range")
    | some txEnvelopeBytes => match x.getEnvelopeFromBlock txEnvelopeBytes with
      | .error e => .error (.plain e)
      | .ok envelope => .ok envelope

/-- `blockToTransactionsField`. -/
def blockToTransactionsField : List Bytes → Except Err (List GoString)
  | [] => .ok []
  | txEnvelopeBytes :: rest => match x.getEnvelopeFromBlock txEnvelopeBytes with
    | .error e => .error (.plain e)
    | .ok envelope => match extractTxIDFromEnvelope x envelope with
      | .error e => .error (.wrap "transaction ID could not be extracted" e)
      | .ok txID => match blockToTransactionsField rest with
        | .error e => .error e
        | .ok txIDs => .ok (txID :: txIDs)

/-! ## Block documents -/

/-- `blockToAttachment`. -/
def blockToAttachment (block : Block) : Except Err (AttachmentName × Bytes) :=
  match x.block.marshal block with
  | .error e => .error (.wrap "marshaling block failed" (.plain e))
  | .ok blockBytes => .ok (.block, blockBytes)

/-- `blockToCouchDoc`. -/
def blockToCouchDoc (block : Block) : Except Err Body :=
  match blockToTransactionsField x block.data with
  | .error e => .error e
  | .ok blockTxns => match blockToAttachment x block with
    | .error e => .error e
    | .ok attachment =>
      .ok ⟨((∅ : GoMap Field JsonValue).insert .header
          (.header (hexEncode (x.blockHeaderHash block.header)))).insert .transactions
            (.transactions blockTxns), [attachment]⟩

/-- `couchDocToBlock` and `couchAttachmentsToBlock`. -/
def couchAttachmentsToBlock (attachments : List (AttachmentName × Bytes)) : Except Err Block :=
  match attachmentBytes .block attachments with
  | [] => .error (.plain "block is not within couchDB document")
  | blockBytes => match x.block.unmarshal blockBytes with
    | .error e =>
      .error (.wrap "block from couchDB document could not be unmarshaled" (.plain e))
    | .ok block => .ok block

/-! ## Transaction documents -/

/-- The document of a transaction, `blockTxnToCouchDoc` with `attachTxn` unset, as the store
sets it. -/
def blockTxnToCouchDoc (blockNumber blockHash : GoString) (txID : GoString)
    (validationCode : UInt8) : Doc Body :=
  ⟨txID, none, false,
    ⟨(((∅ : GoMap Field JsonValue).insert .blockHash (.string blockHash)).insert .blockNumber
      (.string blockNumber)).insert .validationCode
        (.string (formatInt16 validationCode.toNat)), []⟩⟩

/-- The loop of `blockToTxnCouchDocs` from an index on. A transaction without an ID has no
document; a flag that is missing is an index out of range. -/
def txnCouchDocsFrom (blockNumber blockHash : GoString) (flags : Bytes) :
    Nat → List Bytes → Except Err (List (Doc Body))
  | _, [] => .ok []
  | i, txEnvelopeBytes :: rest => match x.getEnvelopeFromBlock txEnvelopeBytes with
    | .error e => .error (.plain e)
    | .ok envelope => match flags[i]? with
      | none => .error (.panic "index out of range")
      | some validationCode => match extractTxIDFromEnvelope x envelope with
        | .error e => .error (.wrap "transaction ID could not be extracted" e)
        | .ok txID => match txnCouchDocsFrom blockNumber blockHash flags (i + 1) rest with
          | .error e => .error e
          | .ok docs =>
            .ok (if txID = [] then docs
              else blockTxnToCouchDoc blockNumber blockHash txID validationCode :: docs)

/-- `blockToTxnCouchDocs`. `attachTxn` is always false. -/
def blockToTxnCouchDocs (block : Block) : Except Err (List (Doc Body)) :=
  match block.metadata[transactionsFilter]? with
  | none => .error (.panic "index out of range")
  | some txValidationFlags =>
    txnCouchDocsFrom x (blockNumberToKey block.header.number)
      (hexEncode (x.blockHeaderHash block.header)) txValidationFlags 0 block.data

end

end FabricPeerExt.Blkstorage
