/-
FabricPeerExt.Blkstorage.ChainTheorems — the head of the chain, in its three copies: the
checkpoint in the database and in memory, and the cached `BlockchainInfo`.
-/
import FabricPeerExt.Blkstorage.Instance
import FabricPeerExt.Lib.Run
import Mathlib.Data.List.Chain

namespace FabricPeerExt.Blkstorage

open Lib
open PvtData (GoString Err)

/-! ## §1 Documents -/

theorem readDoc_saveDoc (db : CouchDB) (id id' : GoString) (body : Body) :
    readDoc (saveDoc db id body) id' = if id' = id then some body else readDoc db id' := by
  unfold readDoc saveDoc
  rw [DocStore.lookup_put]
  by_cases h : id' = id
  · simp [h, DocStore.outcome]
  · simp [h]

theorem blockNumberToKey_injective {m n : UInt64} (h : blockNumberToKey m = blockNumberToKey n) :
    m = n := by
  have hm := readDigits_formatUint m
  have hkey : formatUint m = formatUint n := h
  rw [hkey, readDigits_formatUint n] at hm
  exact (UInt64.toNat_inj.mp (Option.some.inj hm)).symm

/-- A key of a block begins with a digit. -/
theorem exists_blockNumberToKey_eq_cons (n : UInt64) :
    ∃ c cs, blockNumberToKey n = c :: cs ∧ 48 ≤ c ∧ c ≤ 57 := by
  obtain ⟨c, cs, h⟩ := List.exists_cons_of_ne_nil (formatUint_ne_nil n)
  have hdig := isDigits_formatDigits 20 n.toNat
  exact ⟨c, cs, h, hdig c (by rw [← formatUint, h]; exact List.mem_cons_self)⟩

theorem blockNumberToKey_ne_blkMgrInfoKey (n : UInt64) : blockNumberToKey n ≠ blkMgrInfoKey := by
  obtain ⟨c, cs, h, _, hc⟩ := exists_blockNumberToKey_eq_cons n
  rw [h]
  rintro heq
  obtain rfl : c = 98 := (List.cons.inj heq).1
  exact absurd hc (by decide)

section
variable (x : Externals)

variable {b block : Block} {db : CouchDB}

theorem couchAttachmentsToBlock_blockToCouchDoc {body : Body}
    (h : blockToCouchDoc x block = .ok body) :
    couchAttachmentsToBlock x body.attachments = .ok block := by
  unfold blockToCouchDoc blockToAttachment at h
  cases htxns : blockToTransactionsField x block.data with
  | error e => simp [htxns] at h
  | ok txns =>
    cases hbytes : x.block.marshal block with
    | error e => simp [htxns, hbytes] at h
    | ok bytes =>
      simp only [htxns, hbytes, Except.ok.injEq] at h
      subst h
      have hread : attachmentBytes .block [(AttachmentName.block, bytes)] = bytes := rfl
      obtain ⟨c, cs, rfl⟩ := List.exists_cons_of_ne_nil (x.marshal_block_ne_nil hbytes)
      simp only [couchAttachmentsToBlock, hread, x.block.unmarshal_marshal hbytes]

theorem retrieveBlockByNumber_of_doc {body : Body} (h : blockToCouchDoc x block = .ok body)
    (hdb : readDoc db (blockNumberToKey block.header.number) = some body) :
    retrieveBlockByNumber x db block.header.number = .ok block := by
  simp only [retrieveBlockByNumber, hdb, couchAttachmentsToBlock_blockToCouchDoc x h]

/-- Raw bytes are read back, and what follows them is left. -/
theorem decodeRawBytes_encodeRawBytes {bs : Bytes} (rest : Bytes) (h : bs.length < 2 ^ 63) :
    decodeRawBytes x (encodeRawBytes x bs ++ rest) = .ok (bs, rest) := by
  have hlen : (UInt64.ofNat bs.length).toNat = bs.length :=
    UInt64.toNat_ofNat_of_lt' (Nat.lt_trans h (by decide))
  rw [decodeRawBytes, encodeRawBytes, List.append_assoc, x.varint.decode_encode]
  simp only [List.drop_left, hlen, List.length_append]
  rw [if_neg (by omega), if_neg (by omega), List.take_left]

/-- A checkpoint is read back. The length of a Go slice is below `2 ^ 63`. -/
theorem unmarshal_marshal {i : CheckpointInfo} (h : i.currentHash.length < 2 ^ 63) :
    CheckpointInfo.unmarshal x (i.marshal x) = .ok i := by
  have hmark := x.varint.decode_encode (if i.isChainEmpty then 1 else 0) []
  rw [List.append_nil] at hmark
  rw [CheckpointInfo.unmarshal, CheckpointInfo.marshal, List.append_assoc, x.varint.decode_encode]
  simp only [List.drop_left, decodeRawBytes_encodeRawBytes x _ h, hmark]
  cases i with
  | mk isChainEmpty lastBlockNumber currentHash => cases isChainEmpty <;> rfl

theorem marshal_ne_nil (i : CheckpointInfo) : i.marshal x ≠ [] := by
  have hmark : x.varint.encode (if i.isChainEmpty then 1 else 0) ≠ [] := by
    split
    · exact x.varint.encode_small 1 (by decide) ▸ List.cons_ne_nil _ _
    · exact x.varint.encode_small 0 (by decide) ▸ List.cons_ne_nil _ _
  exact List.append_ne_nil_of_right_ne_nil _ hmark

theorem loadCurrentInfo_of_doc {i : CheckpointInfo} (h : i.currentHash.length < 2 ^ 63)
    (hdb : readDoc db blkMgrInfoKey = some (checkpointInfoToCouchDoc x i)) :
    loadCurrentInfo x db = .ok (some i) := by
  have hread : couchAttachmentsToCheckpointInfo x (checkpointInfoToCouchDoc x i).attachments =
      .ok i := by
    have hbytes : attachmentBytes .checkpointinfo (checkpointInfoToCouchDoc x i).attachments =
        i.marshal x := rfl
    rw [couchAttachmentsToCheckpointInfo, hbytes]
    split
    next hnil => exact absurd hnil (marshal_ne_nil x i)
    next => rw [unmarshal_marshal x h]
  simp only [loadCurrentInfo, hdb, hread]

/-! ## §2 `AddBlock` -/

/-- `storeBlock` writes the document of the block, or nothing. -/
theorem storeBlock_cases {fault : Option AddFault} {db' : CouchDB}
    {r : Except Err Unit} (h : storeBlock x fault db block = (db', r)) :
    (db' = db ∧ ∃ e, r = .error e) ∨
      ∃ body, blockToCouchDoc x block = .ok body ∧ r = .ok () ∧
        db' = saveDoc db (blockNumberToKey block.header.number) body := by
  unfold storeBlock at h
  split at h
  next => cases h; exact Or.inl ⟨rfl, _, rfl⟩
  next body hbody =>
    split at h
    next => cases h; exact Or.inl ⟨rfl, _, rfl⟩
    next => cases h; exact Or.inr ⟨body, hbody, rfl, rfl⟩

/-- What is left of the blocks' database by `store`: only the document of the block can
change, and it is the block's if the call succeeds. -/
theorem store_spec {fault : Option AddFault} {db db' : Databases}
    {r : Except Err Unit} (h : store x fault db block = (db', r)) :
    (∀ id, id ≠ blockNumberToKey block.header.number →
      readDoc db'.blockStore id = readDoc db.blockStore id) ∧
    (r = .ok () → ∃ body, blockToCouchDoc x block = .ok body ∧
      readDoc db'.blockStore (blockNumberToKey block.header.number) = some body) := by
  unfold store at h
  split at h
  next blockStore e hs =>
    cases h
    rcases storeBlock_cases x hs with ⟨rfl, _⟩ | ⟨_, _, hr, _⟩
    · exact ⟨fun _ _ => rfl, fun hr => nomatch hr⟩
    · cases hr
  next blockStore hs =>
    obtain ⟨rfl, hr⟩ := Prod.mk.inj h
    rcases storeBlock_cases x hs with ⟨_, _, he⟩ | ⟨body, hbody, _, rfl⟩
    · cases he
    · refine ⟨fun id hid => ?_, fun _ => ⟨body, hbody, ?_⟩⟩
      · rw [readDoc_saveDoc, if_neg hid]
      · rw [readDoc_saveDoc, if_pos rfl]

namespace CdbBlockStore

def head (s : CdbBlockStore) : CheckpointInfo × BlockchainInfo := (s.cpInfo, s.cache.bcInfo)

end CdbBlockStore

@[simp] theorem bcInfo_setConfigBlock (c : BlockCache) (b : Block) :
    (c.setConfigBlock x b).bcInfo = c.bcInfo := by
  unfold BlockCache.setConfigBlock
  split
  · split
    · rfl
    · split
      · rfl
      · rfl
  · rfl

@[simp] theorem bcInfo_put (c : BlockCache) (b : Block) : (c.put x b).bcInfo = c.bcInfo := by
  unfold BlockCache.put
  rw [bcInfo_setConfigBlock]

/-- What a call of `AddBlock` can do. -/
inductive Added (s : CdbBlockStore) (block : Block) : CdbBlockStore → Except Err Unit → Prop
  /-- The block is not the next one. -/
  | rejected (e : Err) : s.validateBlock block = .error e → Added s block s (.error e)
  /-- A write failed, or the block could not be converted. -/
  | failed (s' : CdbBlockStore) (e : Err) : s.validateBlock block = .ok () → s'.head = s.head →
      (∀ id, id ≠ blockNumberToKey block.header.number →
        readDoc s'.db.blockStore id = readDoc s.db.blockStore id) →
      Added s block s' (.error e)
  /-- The block is the new head. -/
  | accepted (s' : CdbBlockStore) (body : Body) : s.validateBlock block = .ok () →
      s'.head = (CdbBlockStore.checkpointOf x block.header, infoOf x block.header) →
      blockToCouchDoc x block = .ok body →
      (∀ id, readDoc s'.db.blockStore id =
        if id = blkMgrInfoKey then
          some (checkpointInfoToCouchDoc x (CdbBlockStore.checkpointOf x block.header))
        else if id = blockNumberToKey block.header.number then some body
        else readDoc s.db.blockStore id) →
      Added s block s' (.ok ())

theorem addBlock_spec (fault : Option AddFault) (s : CdbBlockStore) (block : Block) :
    Added x s block (s.addBlock x true fault block).1 (s.addBlock x true fault block).2 := by
  have hkey := blockNumberToKey_ne_blkMgrInfoKey block.header.number
  unfold CdbBlockStore.addBlock
  rw [if_pos rfl]
  cases hv : s.validateBlock block with
  | error e => exact Added.rejected e hv
  | ok u =>
    rcases hst : store x fault s.db block with ⟨db', r⟩
    obtain ⟨hframe, hdoc⟩ := store_spec x hst
    cases r with
    | error e => exact Added.failed _ e hv rfl hframe
    | ok u =>
      obtain ⟨body, hbody, hread⟩ := hdoc rfl
      simp only [CdbBlockStore.checkpointBlock, if_true, saveCurrentInfo]
      cases CdbBlockStore.checkpointFault fault with
      | some cause =>
        refine Added.failed _ _ hv ?_ hframe
        simp [CdbBlockStore.head]
      | none =>
        refine Added.accepted _ body hv rfl hbody fun id => ?_
        simp only [readDoc_saveDoc]
        by_cases hid : id = blkMgrInfoKey
        · simp [hid]
        · rw [if_neg hid, if_neg hid]
          split
          next h => rw [h, hread]
          next h => exact hframe id h

/-! ## §3 Runs -/

def chainCheckpoint (blocks : List Block) : CheckpointInfo :=
  match blocks.getLast? with
  | none => ⟨true, 0, []⟩
  | some b => CdbBlockStore.checkpointOf x b.header

def chainInfo (blocks : List Block) : BlockchainInfo :=
  match blocks.getLast? with
  | none => ⟨0, [], []⟩
  | some b => infoOf x b.header

def Linked (blocks : List Block) : Prop :=
  blocks.IsChain fun a b =>
    b.header.number = a.header.number + 1 ∧ b.header.previousHash = x.blockHeaderHash a.header

theorem chainCheckpoint_concat (blocks : List Block) (b : Block) :
    chainCheckpoint x (blocks ++ [b]) = CdbBlockStore.checkpointOf x b.header := by
  simp [chainCheckpoint]

theorem length_chainCheckpoint_lt (blocks : List Block) :
    (chainCheckpoint x blocks).currentHash.length < 2 ^ 63 := by
  unfold chainCheckpoint
  split
  · simp
  · simp [CdbBlockStore.checkpointOf, x.length_blockHeaderHash]

variable {s : CdbBlockStore} {blocks : List Block}

theorem validateBlock_ok :
    s.validateBlock b = .ok () ↔ s.cpInfo.isChainEmpty = true ∨
      (b.header.number = s.cpInfo.lastBlockNumber + 1 ∧
        b.header.previousHash = s.cpInfo.currentHash) := by
  unfold CdbBlockStore.validateBlock
  split
  next h => simp [h]
  next h =>
    split
    next hn => simp [h, hn]
    next hn =>
      split
      next hh => simp [h, hh]
      next hh => simp [not_not.mp hn, not_not.mp hh]

/-- A block that passes comes after the last one and refers to it. -/
theorem follows_of_validateBlock {a : Block}
    (hcp : s.cpInfo = chainCheckpoint x blocks) (ha : blocks.getLast? = some a)
    (hv : s.validateBlock b = .ok ()) :
    b.header.number = a.header.number + 1 ∧ b.header.previousHash = x.blockHeaderHash a.header := by
  have hcp' : s.cpInfo = CdbBlockStore.checkpointOf x a.header := by rw [hcp, chainCheckpoint, ha]
  rw [validateBlock_ok, hcp'] at hv
  exact hv.resolve_left Bool.false_ne_true

/-- A block that passes extends the chain. -/
theorem Linked.concat (h : Linked x blocks) (hcp : s.cpInfo = chainCheckpoint x blocks)
    (hv : s.validateBlock b = .ok ()) : Linked x (blocks ++ [b]) := by
  refine List.isChain_append.mpr ⟨h, .singleton b, fun a ha c hc => ?_⟩
  obtain rfl : b = c := by simpa using hc
  exact follows_of_validateBlock x hcp ha hv

theorem add_one_ne_self (n : UInt64) : n + 1 ≠ n := by
  intro h
  have hnat := congrArg UInt64.toNat h
  have hlt := n.toNat_lt
  rw [UInt64.toNat_add, UInt64.toNat_one] at hnat
  omega

/-- What a start of the peer reads: the head of the chain. -/
structure Readable (db : CouchDB) (blocks : List Block) : Prop where
  checkpoint : getCheckpointInfo x db = .ok (chainCheckpoint x blocks)
  last : ∀ b, blocks.getLast? = some b → ∃ body, blockToCouchDoc x b = .ok body ∧
    readDoc db (blockNumberToKey b.header.number) = some body

def Saved (db : CouchDB) (blocks : List Block) : Prop :=
  readDoc db blkMgrInfoKey = some (checkpointInfoToCouchDoc x (chainCheckpoint x blocks))

theorem Saved.loadCurrentInfo (h : Saved x db blocks) :
    loadCurrentInfo x db = .ok (some (chainCheckpoint x blocks)) :=
  loadCurrentInfo_of_doc x (length_chainCheckpoint_lt x blocks) h

theorem Saved.getCheckpointInfo (h : Saved x db blocks) :
    getCheckpointInfo x db = .ok (chainCheckpoint x blocks) := by
  simp only [Blkstorage.getCheckpointInfo, h.loadCurrentInfo]

/-- A start whose write succeeds opens the store with the head of the chain. -/
theorem newCDBBlockStore_of_readable {db : Databases}
    (h : Readable x db.blockStore blocks) (cfg : Config) :
    ∃ s, newCDBBlockStore x cfg none db = (s.db, .ok s) ∧
      s.head = (chainCheckpoint x blocks, chainInfo x blocks) ∧
      Readable x s.db.blockStore blocks ∧ Saved x s.db.blockStore blocks ∧
      s.db = { db with
        blockStore := saveDoc db.blockStore blkMgrInfoKey
          (checkpointInfoToCouchDoc x (chainCheckpoint x blocks)) } := by
  set db' : Databases := { db with
    blockStore := saveDoc db.blockStore blkMgrInfoKey
      (checkpointInfoToCouchDoc x (chainCheckpoint x blocks)) } with hdb'
  have hsaved : Saved x db'.blockStore blocks := by
    rw [Saved, hdb', readDoc_saveDoc, if_pos rfl]
  have hlast : ∀ b, blocks.getLast? = some b → ∃ body, blockToCouchDoc x b = .ok body ∧
      readDoc db'.blockStore (blockNumberToKey b.header.number) = some body := by
    intro b hb
    obtain ⟨body, hbody, hread⟩ := h.last b hb
    refine ⟨body, hbody, ?_⟩
    rw [hdb', readDoc_saveDoc, if_neg (blockNumberToKey_ne_blkMgrInfoKey _), hread]
  simp only [newCDBBlockStore, h.checkpoint, saveCurrentInfo, ← hdb']
  cases hb : blocks.getLast? with
  | none =>
    have hempty : (chainCheckpoint x blocks).isChainEmpty = true := by rw [chainCheckpoint, hb]
    rw [if_pos hempty]
    refine ⟨⟨db', _, _⟩, rfl, ?_, ⟨hsaved.getCheckpointInfo, hlast⟩, hsaved, rfl⟩
    simp only [CdbBlockStore.head, newCache, chainInfo, hb]
  | some b =>
    have hcp : chainCheckpoint x blocks = CdbBlockStore.checkpointOf x b.header := by
      rw [chainCheckpoint, hb]
    obtain ⟨body, hbody, hread⟩ := hlast b hb
    have hretrieve : retrieveBlockByNumber x db'.blockStore
        (chainCheckpoint x blocks).lastBlockNumber = .ok b := by
      rw [hcp]
      exact retrieveBlockByNumber_of_doc x hbody hread
    rw [if_neg (by rw [hcp]; exact Bool.false_ne_true), hretrieve]
    refine ⟨⟨db', _, _⟩, rfl, ?_, ⟨hsaved.getCheckpointInfo, hlast⟩, hsaved, rfl⟩
    simp only [CdbBlockStore.head, newCache, chainInfo, hb]

/-- A start whose write fails leaves the databases as they were. -/
theorem newCDBBlockStore_fault {db : Databases}
    (h : Readable x db.blockStore blocks) (cfg : Config) (cause : Err) :
    newCDBBlockStore x cfg (some cause) db =
      (db, .error (.panic "Could not save cpInfo info to db")) := by
  simp only [newCDBBlockStore, h.checkpoint, saveCurrentInfo]

/-- The invariant: the databases hold the head of the chain, and an open store has it in
memory too. -/
structure Consistent (st : History) : Prop where
  linked : Linked x st.accepted
  readable : Readable x st.sys.db.blockStore st.accepted
  memory : ∀ c s, st.sys = .up c s →
    s.head = (chainCheckpoint x st.accepted, chainInfo x st.accepted) ∧
      Saved x s.db.blockStore st.accepted

theorem consistent_start : Consistent x History.start where
  linked := .nil
  readable := ⟨rfl, fun _ h => nomatch h⟩
  memory _ _ h := nomatch h

variable {x} in
/-- A committer's `AddBlock` keeps the invariant. -/
theorem Consistent.addBlock {st : History}
    (h : Consistent x st) (hs : st.sys = .up true s) (fault : Option AddFault) :
    Consistent x ((Op.addBlock b fault).step x st) := by
  obtain ⟨hhead, hsaved⟩ := h.memory true s hs
  have hcp : s.cpInfo = chainCheckpoint x st.accepted := (Prod.mk.inj hhead).1
  have hdb : st.sys.db = s.db := by rw [hs]; rfl
  have hread := h.readable
  have hkey := blockNumberToKey_ne_blkMgrInfoKey b.header.number
  have hspec := addBlock_spec x fault s b
  simp only [Op.step, hs]
  rcases hadd : s.addBlock x true fault b with ⟨s', r⟩
  rw [hadd] at hspec
  cases hspec with
  | rejected e hv =>
    rw [hdb] at hread
    refine ⟨h.linked, hread, fun c s₂ heq => ?_⟩
    cases heq
    exact ⟨hhead, hsaved⟩
  | failed _ e hv hsame hframe =>
    -- the document of the block may be there, which is not that of the last block
    have hlast : ∀ a, st.accepted.getLast? = some a → ∃ body, blockToCouchDoc x a = .ok body ∧
        readDoc s'.db.blockStore (blockNumberToKey a.header.number) = some body := by
      intro a ha
      obtain ⟨body, hbody, hread⟩ := h.readable.last a ha
      refine ⟨body, hbody, ?_⟩
      rw [hframe _ fun hc => ?_, ← hdb, hread]
      have hnext := (follows_of_validateBlock x hcp ha hv).1
      rw [← blockNumberToKey_injective hc] at hnext
      exact add_one_ne_self _ hnext.symm
    have hsaved' : Saved x s'.db.blockStore st.accepted := by
      rw [Saved, hframe _ (Ne.symm hkey)]
      exact hsaved
    refine ⟨h.linked, ⟨hsaved'.getCheckpointInfo, hlast⟩, fun c s₂ heq => ?_⟩
    cases heq
    exact ⟨hsame.trans hhead, hsaved'⟩
  | accepted _ body hv hnew hbody hdoc =>
    have hsaved' : Saved x s'.db.blockStore (st.accepted ++ [b]) := by
      rw [Saved, hdoc, if_pos rfl, chainCheckpoint_concat]
    refine ⟨h.linked.concat x hcp hv, ⟨hsaved'.getCheckpointInfo, fun a ha => ?_⟩,
      fun c s₂ heq => ?_⟩
    · obtain rfl : b = a := by simpa using ha
      exact ⟨body, hbody, by
        show readDoc s'.db.blockStore _ = _
        rw [hdoc, if_neg hkey, if_pos rfl]⟩
    · cases heq
      refine ⟨?_, hsaved'⟩
      rw [hnew]
      simp [chainCheckpoint_concat, chainInfo]

variable {x} in
/-- Every step keeps the invariant. -/
theorem Consistent.step {st : History} (h : Consistent x st) (op : Op) :
    Consistent x (op.step x st) := by
  cases op with
  | reopen committer cfg fault =>
    cases fault with
    | some cause =>
      simp only [Op.step, newCDBBlockStore_fault x h.readable cfg cause]
      exact ⟨h.linked, h.readable, fun _ _ heq => nomatch heq⟩
    | none =>
      obtain ⟨s, hs, hhead, hread, hsaved, _⟩ := newCDBBlockStore_of_readable x h.readable cfg
      simp only [Op.step, hs]
      refine ⟨h.linked, hread, fun c s₂ heq => ?_⟩
      cases heq
      exact ⟨hhead, hsaved⟩
  | addBlock b fault =>
    cases hs : st.sys with
    | down db => simpa only [Op.step, hs] using h
    | up committer s =>
      cases committer with
      | true => exact h.addBlock hs fault
      | false =>
        -- on another peer than a committer nothing happens
        have hsame : (Op.addBlock b fault).step x st = st := by
          simp only [Op.step, hs, CdbBlockStore.addBlock, Bool.false_eq_true, if_false]
          rw [← hs]
        rw [hsame]
        exact h

theorem consistent_run (ops : List Op) : Consistent x (run (Op.step x) History.start ops) :=
  run_always (fun _ op h => h.step op) (consistent_start x)

/-- Over every run: the accepted blocks are linked; the checkpoint in memory, the one in the
database and the blockchain info are those of the last accepted block, which can be read; a
rejected block changes nothing; the store can always be opened again; and a checkpoint is read
back as it was written. -/
theorem chain_invariant (ops : List Op) :
    let st := run (Op.step x) History.start ops
    Linked x st.accepted ∧
      (∀ c s, st.sys = .up c s →
        s.cpInfo = chainCheckpoint x st.accepted ∧
        loadCurrentInfo x s.db.blockStore = .ok (some s.cpInfo) ∧
        s.cache.bcInfo = chainInfo x st.accepted ∧
        (∀ b, st.accepted.getLast? = some b →
          retrieveBlockByNumber x s.db.blockStore b.header.number = .ok b) ∧
        ∀ b e fault, s.validateBlock b = .error e →
          s.addBlock x true fault b = (s, .error e)) ∧
      (∀ c cfg, ∃ s, (Op.reopen c cfg none).step x st = ⟨.up c s, st.accepted⟩) ∧
      ∀ i : CheckpointInfo, i.currentHash.length < 2 ^ 63 →
        CheckpointInfo.unmarshal x (i.marshal x) = .ok i := by
  intro st
  have h : Consistent x st := consistent_run x ops
  refine ⟨h.linked, fun c s hs => ?_, fun c cfg => ?_, fun i hi => unmarshal_marshal x hi⟩
  · obtain ⟨hhead, hsaved⟩ := h.memory c s hs
    have hcp : s.cpInfo = chainCheckpoint x st.accepted := (Prod.mk.inj hhead).1
    refine ⟨hcp, hcp ▸ hsaved.loadCurrentInfo, (Prod.mk.inj hhead).2, fun b hb => ?_, ?_⟩
    · obtain ⟨body, hbody, hread⟩ := h.readable.last b hb
      rw [hs] at hread
      exact retrieveBlockByNumber_of_doc x hbody hread
    · intro b e fault hv
      simp only [CdbBlockStore.addBlock, if_true, hv]
  · obtain ⟨s, hs, _⟩ := newCDBBlockStore_of_readable x h.readable cfg
    exact ⟨s, by simp only [Op.step, hs]⟩

end

/-- Two blocks are accepted, with a rejected block, a failed checkpoint and two starts of the
peer between them. -/
def sampleRun : List Op :=
  let b₀ := plainBlock 0 [] [[1]] [0]
  let b₁ := plainNext b₀ [[2], [1]] [0, 9]
  [.reopen true ⟨0, 0⟩ none, .addBlock b₀ none, .addBlock b₀ none,
    .addBlock (plainNext b₀ [[3]] [0]) (some (.checkpoint (.plain "timeout"))),
    .reopen true ⟨2, 0⟩ none, .addBlock b₁ none]

theorem chain_invariant_sample :
    (run (Op.step plainExternals) History.start sampleRun).accepted.map (·.header.number) =
        [0, 1] ∧
      Linked plainExternals (run (Op.step plainExternals) History.start sampleRun).accepted :=
  ⟨by decide +kernel, (chain_invariant plainExternals sampleRun).1⟩

end FabricPeerExt.Blkstorage
