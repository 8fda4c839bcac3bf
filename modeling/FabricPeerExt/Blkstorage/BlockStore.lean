/-
FabricPeerExt.Blkstorage.BlockStore — the block store of a channel, `cdb_blkstorage.go`,
`cdb_checkpoint.go` and `blockcache.go` of `pkg/blkstorage/cdbblkstorage`.

`roles.IsCommitter` is a parameter. Locks are left out (`Iterator.lean` has the steps of
`AddBlock`), as are log lines.
-/
import FabricPeerExt.Blkstorage.Store
import FabricPeerExt.Lib.Lru

namespace FabricPeerExt.Blkstorage

open Lib
open PvtData (GoString Err)

/-! ## Checkpoints -/

/-- `checkpointInfo`. -/
structure CheckpointInfo where
  isChainEmpty : Bool
  lastBlockNumber : UInt64
  currentHash : Bytes
  deriving DecidableEq, Repr

section
variable (x : Externals)

def encodeRawBytes (bs : Bytes) : Bytes := x.varint.encode (UInt64.ofNat bs.length) ++ bs

def decodeRawBytes (bs : Bytes) : Except String (Bytes × Bytes) :=
  match x.varint.decode bs with
  | .error e => .error e
  | .ok (n, used) =>
    if 2 ^ 63 ≤ n.toNat then .error s!"proto: bad byte length {n}"
    else if (bs.drop used).length < n.toNat then .error "unexpected EOF"
    else .ok ((bs.drop used).take n.toNat, (bs.drop used).drop n.toNat)

namespace CheckpointInfo

/-- `checkpointInfo.marshal`. -/
def marshal (i : CheckpointInfo) : Bytes :=
  x.varint.encode i.lastBlockNumber ++ encodeRawBytes x i.currentHash ++
    x.varint.encode (if i.isChainEmpty then 1 else 0)

/-- `checkpointInfo.unmarshal`. A nil hash and an empty one are the same here. -/
def unmarshal (b : Bytes) : Except String CheckpointInfo :=
  match x.varint.decode b with
  | .error e => .error e
  | .ok (lastBlockNumber, used) => match decodeRawBytes x (b.drop used) with
    | .error e => .error e
    | .ok (currentHash, rest) => match x.varint.decode rest with
      | .error e => .error e
      | .ok (chainEmptyMarker, _) => .ok ⟨chainEmptyMarker == 1, lastBlockNumber, currentHash⟩

end CheckpointInfo

/-- `checkpointInfoToCouchDoc`, with `checkpointInfoToAttachment`. -/
def checkpointInfoToCouchDoc (i : CheckpointInfo) : Body := ⟨∅, [(.checkpointinfo, i.marshal x)]⟩

/-- `couchDocToCheckpointInfo` and `couchAttachmentsToCheckpointInfo`. -/
def couchAttachmentsToCheckpointInfo (attachments : List (AttachmentName × Bytes)) :
    Except Err CheckpointInfo :=
  match attachmentBytes .checkpointinfo attachments with
  | [] => .error (.plain "checkpointInfo is not within couchDB document")
  | bytes => match CheckpointInfo.unmarshal x bytes with
    | .error e => .error
      (.wrap "checkpointInfo from couchDB document could not be unmarshaled" (.plain e))
    | .ok cpInfo => .ok cpInfo

/-- `checkpoint.loadCurrentInfo`, where the read does not fail. -/
def loadCurrentInfo (db : CouchDB) : Except Err (Option CheckpointInfo) :=
  match readDoc db blkMgrInfoKey with
  | none => .ok none
  | some doc => match couchAttachmentsToCheckpointInfo x doc.attachments with
    | .error e => .error (.wrap "unmarshal of checkpointInfo from couchDB failed [blkMgrInfo]" e)
    | .ok cpInfo => .ok (some cpInfo)

/-- `checkpoint.saveCurrentInfo`. -/
def saveCurrentInfo (fault : Option Err) (db : CouchDB) (i : CheckpointInfo) :
    CouchDB × Except Err Unit :=
  match fault with
  | some cause => (db, .error (.wrap "adding checkpointInfo to couchDB failed" cause))
  | none => (saveDoc db blkMgrInfoKey (checkpointInfoToCouchDoc x i), .ok ())

end

/-! ## Caches -/

/-- `common.BlockchainInfo`. -/
structure BlockchainInfo where
  height : UInt64
  currentBlockHash : Bytes
  previousBlockHash : Bytes
  deriving DecidableEq, Repr

/-- `blockCache`. A cache of size zero is `none`: it stores nothing, and reads go to the
database. -/
structure BlockCache where
  bcInfo : BlockchainInfo
  configBlock : Option Block
  blocksByNum : Option (Lru UInt64 Block)
  blocksByHash : Option (Lru Bytes Block)

/-- `config`. -/
structure Config where
  blockByNumSize : Nat
  blockByHashSize : Nat

/-- `createBlockByNumCache` and `createBlockByHashCache`. -/
def newLru {κ : Type} (size : Nat) : Option (Lru κ Block) :=
  if 0 < size then some ⟨size, []⟩ else none

/-- `newCache`. -/
def newCache (bcInfo : BlockchainInfo) (cfg : Config) : BlockCache :=
  ⟨bcInfo, none, newLru cfg.blockByNumSize, newLru cfg.blockByHashSize⟩

section
variable (x : Externals)

/-- `isConfigBlock`: the type in the channel header of the first envelope is `CONFIG` or
`CONFIG_UPDATE`. -/
def isConfigBlock (b : Block) : Bool :=
  match b.data with
  | [] => false
  | bytes :: _ => match x.getEnvelopeFromBlock bytes with
    | .error _ => false
    | .ok envelope => match x.extractPayload envelope with
      | .error _ => false
      | .ok payload => match payload.channelHeader with
        | none => false
        | some bytes => match x.unmarshalChannelHeader bytes with
          | .error _ => false
          | .ok header => header.type == 1 || header.type == 2

namespace BlockCache

/-- `blockCache.setConfigBlock`. -/
def setConfigBlock (c : BlockCache) (b : Block) : BlockCache :=
  if isConfigBlock x b then
    match c.configBlock with
    | none => { c with configBlock := some b }
    | some cb =>
      if b.header.number ≤ cb.header.number then c else { c with configBlock := some b }
  else c

/-- `blockCache.put`. -/
def put (c : BlockCache) (b : Block) : BlockCache :=
  setConfigBlock x
    { c with
      blocksByNum := c.blocksByNum.map fun l => l.set b.header.number b
      blocksByHash := c.blocksByHash.map fun l => l.set (x.blockHeaderHash b.header) b } b

/-- `blockCache.getBlockByNumber`, with its loader. -/
def getBlockByNumber (c : BlockCache) (db : CouchDB) (bNum : UInt64) :
    BlockCache × Except Err Block :=
  match c.configBlock.filter fun cb => cb.header.number = bNum with
  | some cb => (c, .ok cb)
  | none => match c.blocksByNum with
    | none => (c, retrieveBlockByNumber x db bNum)
    | some lru => match lru.find bNum with
      | some b => ({ c with blocksByNum := some (lru.set bNum b) }, .ok b)
      | none => match retrieveBlockByNumber x db bNum with
        | .error e => (c, .error e)
        | .ok b => ({ c with blocksByNum := some (lru.set bNum b) }.setConfigBlock x b, .ok b)

/-- `blockCache.getBlockByHash`, with its loader. -/
def getBlockByHash (c : BlockCache) (db : CouchDB) (hash : Bytes) :
    BlockCache × Except Err Block :=
  match c.blocksByHash with
  | none => (c, retrieveBlockByHash x db hash)
  | some lru => match lru.find hash with
    | some b => ({ c with blocksByHash := some (lru.set hash b) }, .ok b)
    | none => match retrieveBlockByHash x db hash with
      | .error e => (c, .error e)
      | .ok b => ({ c with blocksByHash := some (lru.set hash b) }.setConfigBlock x b, .ok b)

end BlockCache

end

/-! ## The store -/

/-- `cdbBlockStore`. -/
structure CdbBlockStore where
  db : Databases
  cpInfo : CheckpointInfo
  cache : BlockCache

section
variable (x : Externals)

/-- `checkpoint.getCheckpointInfo`. -/
def getCheckpointInfo (db : CouchDB) : Except Err CheckpointInfo :=
  match loadCurrentInfo x db with
  | .error _ =>
    .error (.panic "Could not get block file info for current block file from db")
  | .ok none => .ok ⟨true, 0, []⟩
  | .ok (some cpInfo) => .ok cpInfo

def infoOf (h : BlockHeader) : BlockchainInfo :=
  ⟨h.number + 1, x.blockHeaderHash h, h.previousHash⟩

/-- `newCDBBlockStore`, with the databases it leaves. `fault` is the error of the write of
the checkpoint. -/
def newCDBBlockStore (cfg : Config) (fault : Option Err) (db : Databases) :
    Databases × Except Err CdbBlockStore :=
  match getCheckpointInfo x db.blockStore with
  | .error e => (db, .error e)
  | .ok cpInfo => match saveCurrentInfo x fault db.blockStore cpInfo with
    | (blockStore, .error _) =>
      ({ db with blockStore }, .error (.panic "Could not save cpInfo info to db"))
    | (blockStore, .ok ()) =>
      let db := { db with blockStore }
      if cpInfo.isChainEmpty then (db, .ok ⟨db, cpInfo, newCache ⟨0, [], []⟩ cfg⟩)
      else match retrieveBlockByNumber x db.blockStore cpInfo.lastBlockNumber with
        | .error _ =>
          (db, .error (.panic s!"Could not load block {cpInfo.lastBlockNumber} from database"))
        | .ok lastBlock => (db, .ok ⟨db, cpInfo, newCache (infoOf x lastBlock.header) cfg⟩)

namespace CdbBlockStore

/-- `cdbBlockStore.validateBlock`. -/
def validateBlock (s : CdbBlockStore) (block : Block) : Except Err Unit :=
  if s.cpInfo.isChainEmpty then .ok ()
  else if block.header.number ≠ s.cpInfo.lastBlockNumber + 1 then
    .error (.plain (s!"block number should have been {s.cpInfo.lastBlockNumber + 1}" ++
      s!" but was {block.header.number}"))
  else if block.header.previousHash ≠ s.cpInfo.currentHash then
    .error (.plain ("unexpected Previous block hash. Expected PreviousHash = " ++
      s!"[{text (hexEncode s.cpInfo.currentHash)}], PreviousHash referred in the latest block= " ++
      s!"[{text (hexEncode block.header.previousHash)}]"))
  else .ok ()

def checkpointOf (h : BlockHeader) : CheckpointInfo := ⟨false, h.number, x.blockHeaderHash h⟩

/-- `CheckpointBlock`. The block is put into the cache first; a committer then saves the
checkpoint, and only after that do the copies in memory change. -/
def checkpointBlock (committer : Bool) (fault : Option Err) (s : CdbBlockStore) (block : Block) :
    CdbBlockStore × Except Err Unit :=
  let newCPInfo := checkpointOf x block.header
  let s := { s with cache := s.cache.put x block }
  let (blockStore, saved) :=
    if committer then saveCurrentInfo x fault s.db.blockStore newCPInfo
    else (s.db.blockStore, .ok ())
  match saved with
  | .error e =>
    ({ s with db := { s.db with blockStore } },
      .error (.wrap "adding cpInfo to couchDB failed" e))
  | .ok () =>
    ({ db := { s.db with blockStore }
       cpInfo := newCPInfo
       cache := { s.cache with bcInfo := infoOf x block.header } }, .ok ())

def checkpointFault : Option AddFault → Option Err
  | some (.checkpoint cause) => some cause
  | _ => none

/-- `cdbBlockStore.AddBlock` in one go; `Shared.proceed` has its steps. -/
def addBlock (committer : Bool) (fault : Option AddFault) (s : CdbBlockStore) (block : Block) :
    CdbBlockStore × Except Err Unit :=
  if committer then
    match s.validateBlock block with
    | .error e => (s, .error e)
    | .ok () => match store x fault s.db block with
      | (db, .error e) => ({ s with db }, .error e)
      | (db, .ok ()) =>
        checkpointBlock x committer (checkpointFault fault) { s with db } block
  else (s, .ok ())

/-- `RetrieveBlockByNumber`: the greatest number asks for the last block. -/
def retrieveBlockByNumber (s : CdbBlockStore) (blockNum : UInt64) :
    CdbBlockStore × Except Err Block :=
  let blockNum := if blockNum = PvtData.maxUint64 then s.cache.bcInfo.height - 1 else blockNum
  match s.cache.getBlockByNumber x s.db.blockStore blockNum with
  | (cache, r) => ({ s with cache }, r)

/-- `cdbBlockStore.RetrieveBlockByHash`. -/
def retrieveBlockByHash (s : CdbBlockStore) (blockHash : Bytes) :
    CdbBlockStore × Except Err Block :=
  match s.cache.getBlockByHash x s.db.blockStore blockHash with
  | (cache, r) => ({ s with cache }, r)

/-- `cdbBlockStore.RetrieveTxByBlockNumTranNum`. -/
def retrieveTxByBlockNumTranNum (s : CdbBlockStore) (blockNum tranNum : UInt64) :
    CdbBlockStore × Except Err Envelope :=
  match s.cache.getBlockByNumber x s.db.blockStore blockNum with
  | (cache, .error e) => ({ s with cache }, .error e)
  | (cache, .ok block) => ({ s with cache }, extractEnvelopeFromBlock x block tranNum)

/-- `ExportTxIds`: the data file and the metadata file, of which it returns the hashes. -/
def exportTxIds (order : RangeOrder GoString) (db : Databases) :
    Option (SnapshotFile GoString × SnapshotFile Nat) :=
  match exportTxIDs order db.txnStore with
  | none => none
  | some (dataFile, numTxIDs) => some (dataFile, ⟨snapshotFileFormat, [numTxIDs]⟩)

end CdbBlockStore

/-! ## A peer over time -/

/-- The databases with no peer on them, or an open store with the role of its peer. -/
inductive Sys where
  | down (db : Databases)
  | up (committer : Bool) (s : CdbBlockStore)

def Sys.db : Sys → Databases
  | .down db => db
  | .up _ s => s.db

/-- What happens to the store: the peer is started, for the first time or again, or a block
is added. The writes that fail are given. -/
inductive Op where
  | reopen (committer : Bool) (cfg : Config) (fault : Option Err)
  | addBlock (block : Block) (fault : Option AddFault)

/-- The store at work, with the blocks it has accepted. -/
structure History where
  sys : Sys
  accepted : List Block

def Op.step (st : History) : Op → History
  | .reopen committer cfg fault => match newCDBBlockStore x cfg fault st.sys.db with
    | (db, .error _) => { st with sys := .down db }
    | (_, .ok s) => { st with sys := .up committer s }
  | .addBlock block fault => match st.sys with
    | .down _ => st
    | .up committer s => match s.addBlock x committer fault block with
      | (s', .error _) => { st with sys := .up committer s' }
      | (s', .ok ()) =>
        ⟨.up committer s', if committer then st.accepted ++ [block] else st.accepted⟩

def History.start : History := ⟨.down .empty, []⟩

end

end FabricPeerExt.Blkstorage
