/-
FabricPeerExt.Blkstorage.Contents — what the databases contain when every write works: `Contents`
and `contents_run`.
-/
import FabricPeerExt.Blkstorage.ChainTheorems

namespace FabricPeerExt.Blkstorage

open Lib
open PvtData (GoString Err)

section
variable (x : Externals)

/-! ## §1 `AddBlock` -/

def afterAdd (s : CdbBlockStore) (block : Block) (body : Body) (docs : List (Doc Body)) :
    CdbBlockStore where
  db :=
    { blockStore := saveDoc (saveDoc s.db.blockStore (blockNumberToKey block.header.number) body)
        blkMgrInfoKey (checkpointInfoToCouchDoc x (CdbBlockStore.checkpointOf x block.header))
      txnStore := s.db.txnStore.bulk docs }
  cpInfo := CdbBlockStore.checkpointOf x block.header
  cache := { s.cache.put x block with bcInfo := infoOf x block.header }

variable {docs : List (Doc Body)} {blocks : List Block}

theorem store_none {db : Databases} {block : Block} {body : Body}
    (hbody : blockToCouchDoc x block = .ok body) (hdocs : blockToTxnCouchDocs x block = .ok docs) :
    store x none db block =
      (⟨saveDoc db.blockStore (blockNumberToKey block.header.number) body,
        db.txnStore.bulk docs⟩, .ok ()) := by
  simp only [store, storeBlock, hbody, storeTransactions, hdocs]
  cases docs with
  | nil => rfl
  | cons d ds => rfl

/-- Without a failing write a committer's `AddBlock` succeeds exactly if the block is the next
one and can be converted. -/
theorem addBlock_ok {s s' : CdbBlockStore} {block : Block} :
    s.addBlock x true none block = (s', .ok ()) ↔
      s.validateBlock block = .ok () ∧ ∃ body docs, blockToCouchDoc x block = .ok body ∧
        blockToTxnCouchDocs x block = .ok docs ∧ s' = afterAdd x s block body docs := by
  constructor
  · intro h
    unfold CdbBlockStore.addBlock at h
    rw [if_pos rfl] at h
    split at h
    next => cases h
    next hv =>
      refine ⟨hv, ?_⟩
      cases hbody : blockToCouchDoc x block with
      | error e => simp [store, storeBlock, hbody] at h
      | ok body =>
        cases hdocs : blockToTxnCouchDocs x block with
        | error e => simp [store, storeBlock, hbody, storeTransactions, hdocs] at h
        | ok docs =>
          rw [store_none x hbody hdocs] at h
          exact ⟨body, docs, rfl, rfl, (Prod.mk.inj h).1.symm⟩
  · rintro ⟨hv, body, docs, hbody, hdocs, rfl⟩
    simp only [CdbBlockStore.addBlock, if_true, hv, store_none x hbody hdocs]
    rfl

/-! ## §2 Contents -/

def blockDoc (blocks : List Block) (id : GoString) : Option Body :=
  (blocks.reverse.find? fun b => blockNumberToKey b.header.number = id).bind fun b =>
    (blockToCouchDoc x b).toOption

def txnDocs (b : Block) : List (Doc Body) := (blockToTxnCouchDocs x b).toOption.getD []

def txnDoc (blocks : List Block) (txID : GoString) : Option Body :=
  ((blocks.flatMap (txnDocs x)).find? fun doc => doc.id = txID).map Doc.body

def HasHeader (body : Body) : Prop := ∃ v, body.fields.lookup .header = some v

structure Contents (db : Databases) (blocks : List Block) : Prop where
  converted : ∀ b ∈ blocks, (∃ body, blockToCouchDoc x b = .ok body) ∧
    ∃ docs, blockToTxnCouchDocs x b = .ok docs
  blockAt : ∀ id, id ≠ blkMgrInfoKey → readDoc db.blockStore id = blockDoc x blocks id
  checkpoint : ∀ body, readDoc db.blockStore blkMgrInfoKey = some body → ¬ HasHeader body
  txnAt : ∀ txID, readDoc db.txnStore txID = txnDoc x blocks txID

theorem contents_empty : Contents x .empty [] where
  converted _ h := nomatch h
  blockAt _ _ := rfl
  checkpoint _ h := nomatch h
  txnAt _ := rfl

theorem not_hasHeader_checkpoint (i : CheckpointInfo) :
    ¬ HasHeader (checkpointInfoToCouchDoc x i) := fun ⟨_, h⟩ => nomatch h

theorem envelopeAndTxID_ok {bytes : Bytes} {envelope : Envelope} {txID : GoString} :
    envelopeAndTxID x bytes = .ok (envelope, txID) ↔
      x.getEnvelopeFromBlock bytes = .ok envelope ∧
        extractTxIDFromEnvelope x envelope = .ok txID := by
  unfold envelopeAndTxID
  cases x.getEnvelopeFromBlock bytes with
  | error e => simp
  | ok env =>
    simp only [Except.ok.injEq]
    cases hid : extractTxIDFromEnvelope x env with
    | error e =>
      refine ⟨(fun h => nomatch h), ?_⟩
      rintro ⟨rfl, h⟩
      exact nomatch hid.symm.trans h
    | ok id =>
      simp only [Except.ok.injEq, Prod.mk.injEq]
      constructor
      · rintro ⟨rfl, rfl⟩
        exact ⟨rfl, hid⟩
      · rintro ⟨rfl, h⟩
        exact ⟨rfl, Except.ok.inj (hid.symm.trans h)⟩

/-- A round of the loop over the transactions of a block. -/
theorem txnCouchDocsFrom_cons_ok {number hash flags bytes : Bytes} {i : Nat} {rest : List Bytes} :
    txnCouchDocsFrom x number hash flags i (bytes :: rest) = .ok docs ↔
      ∃ envelope txID code docs', envelopeAndTxID x bytes = .ok (envelope, txID) ∧
        flags[i]? = some code ∧ txnCouchDocsFrom x number hash flags (i + 1) rest = .ok docs' ∧
        docs = if txID = [] then docs' else blockTxnToCouchDoc number hash txID code :: docs' := by
  simp only [envelopeAndTxID_ok]
  rw [txnCouchDocsFrom]
  cases x.getEnvelopeFromBlock bytes with
  | error e => simp
  | ok envelope =>
    cases hcode : flags[i]? with
    | none => simp
    | some code =>
      cases hid : extractTxIDFromEnvelope x envelope with
      | error e => simp [hid]
      | ok txID =>
        cases txnCouchDocsFrom x number hash flags (i + 1) rest with
        | error e => simp [hid]
        | ok docs' => simp [hid, eq_comm]

/-- The transaction documents have an ID, and are sent as new ones. -/
theorem txnCouchDocsFrom_new {number hash flags : Bytes} : ∀ {i : Nat} {data : List Bytes}
    {docs : List (Doc Body)}, txnCouchDocsFrom x number hash flags i data = .ok docs →
    ∀ doc ∈ docs, doc.id ≠ [] ∧ doc.rev = none ∧ doc.deleted = false
  | _, [], _, h => by
    cases h
    exact fun _ hd => nomatch hd
  | i, bytes :: rest, docs, h => by
    obtain ⟨_, txID, _, docs', _, _, hrest, rfl⟩ := (txnCouchDocsFrom_cons_ok x).mp h
    intro doc hdoc
    split at hdoc
    next => exact txnCouchDocsFrom_new hrest doc hdoc
    next hid =>
      rcases List.mem_cons.mp hdoc with rfl | hdoc
      · exact ⟨hid, rfl, rfl⟩
      · exact txnCouchDocsFrom_new hrest doc hdoc

theorem blockToTxnCouchDocs_new {b : Block} (h : blockToTxnCouchDocs x b = .ok docs) :
    ∀ doc ∈ docs, doc.id ≠ [] ∧ doc.rev = none ∧ doc.deleted = false := by
  unfold blockToTxnCouchDocs at h
  split at h
  next => cases h
  next => exact txnCouchDocsFrom_new x h

variable {x} in
/-- A change of the checkpoint alone. -/
theorem Contents.saveCheckpoint {db : Databases} (h : Contents x db blocks) (i : CheckpointInfo) :
    Contents x { db with
      blockStore := saveDoc db.blockStore blkMgrInfoKey (checkpointInfoToCouchDoc x i) } blocks
    where
  converted := h.converted
  blockAt id hid := by rw [readDoc_saveDoc, if_neg hid, h.blockAt id hid]
  checkpoint body hbody := by
    rw [readDoc_saveDoc, if_pos rfl] at hbody
    exact Option.some.inj hbody ▸ not_hasHeader_checkpoint x i
  txnAt := h.txnAt

variable {x} in
/-- An accepted block is added to the contents. -/
theorem Contents.addBlock {s : CdbBlockStore} {b : Block} {body : Body} (h : Contents x s.db blocks)
    (hbody : blockToCouchDoc x b = .ok body) (hdocs : blockToTxnCouchDocs x b = .ok docs) :
    Contents x (afterAdd x s b body docs).db (blocks ++ [b]) where
  converted c hc := by
    rcases List.mem_append.mp hc with hc | hc
    · exact h.converted c hc
    · rw [List.mem_singleton.mp hc]
      exact ⟨⟨body, hbody⟩, docs, hdocs⟩
  blockAt id hid := by
    simp only [afterAdd, readDoc_saveDoc, if_neg hid, blockDoc, List.reverse_append,
      List.reverse_singleton, List.singleton_append, List.find?_cons]
    by_cases hk : id = blockNumberToKey b.header.number
    · simp [hk, hbody, Except.toOption]
    · simp only [if_neg hk, h.blockAt id hid, decide_eq_false (Ne.symm hk)]
      rfl
  checkpoint body' hbody' := by
    simp only [afterAdd, readDoc_saveDoc, if_true] at hbody'
    exact Option.some.inj hbody' ▸ not_hasHeader_checkpoint x _
  txnAt txID := by
    have hold := h.txnAt txID
    have hnew : txnDocs x b = docs := by simp [txnDocs, hdocs, Except.toOption]
    unfold readDoc at hold
    simp only [afterAdd, readDoc, txnDoc, List.flatMap_append, List.flatMap_singleton,
      List.find?_append, hnew]
    rw [DocStore.map_body_lookup_bulk_new txID fun doc hdoc =>
      (blockToTxnCouchDocs_new x hdocs doc hdoc).2, hold, txnDoc]
    cases (blocks.flatMap (txnDocs x)).find? fun doc => decide (doc.id = txID) <;> rfl

/-! ## §3 Runs -/

/-- No write fails, and a block that is given to a committer is accepted. -/
def Works (st : History) : Op → Prop
  | .reopen _ _ fault => fault.isNone = true
  | .addBlock b fault => fault.isNone = true ∧
    match st.sys with
    | .down _ => True
    | .up c s => (s.addBlock x c none b).2.toBool = true

instance decidableWorks (st : History) : ∀ op, Decidable (Works x st op)
  | .reopen _ _ fault => inferInstanceAs (Decidable (fault.isNone = true))
  | .addBlock b fault =>
    have : Decidable (match st.sys with
        | .down _ => True
        | .up c s => (s.addBlock x c none b).2.toBool = true) :=
      match st.sys with
      | .down _ => inferInstanceAs (Decidable True)
      | .up c s => inferInstanceAs (Decidable ((s.addBlock x c none b).2.toBool = true))
    inferInstanceAs (Decidable (fault.isNone = true ∧ _))

variable {x} in
/-- A step that works, as far as the databases are concerned: a start, or an accepted block. -/
theorem works_cases {st : History} {op : Op} (h : Consistent x st) (hw : Works x st op) :
    (op.step x st).accepted = st.accepted ∧
        ((op.step x st).sys.db = st.sys.db ∨ ∃ i, (op.step x st).sys.db =
          { st.sys.db with
            blockStore := saveDoc st.sys.db.blockStore blkMgrInfoKey
              (checkpointInfoToCouchDoc x i) }) ∨
      ∃ s b body docs, st.sys = .up true s ∧ s.validateBlock b = .ok () ∧
        blockToCouchDoc x b = .ok body ∧ blockToTxnCouchDocs x b = .ok docs ∧
        op.step x st = ⟨.up true (afterAdd x s b body docs), st.accepted ++ [b]⟩ := by
  cases op with
  | reopen committer cfg fault =>
    obtain rfl : fault = none := Option.isNone_iff_eq_none.mp hw
    obtain ⟨s, hs, _, _, _, hdb⟩ := newCDBBlockStore_of_readable x h.readable cfg
    left
    simp only [Op.step, hs]
    exact ⟨trivial, Or.inr ⟨_, hdb⟩⟩
  | addBlock b fault =>
    obtain ⟨hfault, hres⟩ := hw
    obtain rfl : fault = none := Option.isNone_iff_eq_none.mp hfault
    cases hs : st.sys with
    | down db =>
      left
      simp only [Op.step, hs]
      exact ⟨trivial, Or.inl trivial⟩
    | up c s =>
      cases c with
      | false =>
        left
        simp only [Op.step, hs, CdbBlockStore.addBlock, Bool.false_eq_true, if_false]
        exact ⟨trivial, Or.inl trivial⟩
      | true =>
        right
        simp only [hs] at hres
        rcases hadd : s.addBlock x true none b with ⟨s', r⟩
        rw [hadd] at hres
        cases r with
        | error e => cases hres
        | ok u =>
          obtain ⟨hv, body, docs, hbody, hdocs, rfl⟩ := (addBlock_ok x).mp hadd
          refine ⟨s, b, body, docs, rfl, hv, hbody, hdocs, ?_⟩
          simp only [Op.step, hs, hadd, if_true]

variable {x} in
theorem Contents.step {st : History} {op : Op} (hc : Consistent x st)
    (h : Contents x st.sys.db st.accepted) (hw : Works x st op) :
    Contents x (op.step x st).sys.db (op.step x st).accepted := by
  rcases works_cases hc hw with
    ⟨hacc, hdb | ⟨i, hdb⟩⟩ | ⟨s, b, body, docs, hs, _, hbody, hdocs, heq⟩
  · rw [hacc, hdb]
    exact h
  · rw [hacc, hdb]
    exact h.saveCheckpoint i
  · rw [heq]
    rw [hs] at h
    exact h.addBlock hbody hdocs

/-- The databases contain the accepted blocks after every run that works. -/
theorem contents_run {ops : List Op} (h : Meets (Op.step x) (Works x) History.start ops) :
    Contents x (run (Op.step x) History.start ops).sys.db
      (run (Op.step x) History.start ops).accepted := by
  have hboth : Consistent x (run (Op.step x) History.start ops) ∧
      Contents x (run (Op.step x) History.start ops).sys.db
        (run (Op.step x) History.start ops).accepted :=
    run_invariant (P := fun st => Consistent x st ∧ Contents x st.sys.db st.accepted)
      (fun st op hst hw => ⟨hst.1.step op, hst.2.step hst.1 hw⟩)
      ⟨consistent_start x, contents_empty x⟩ h
  exact hboth.2

/-! ## §4 Numbers -/

variable {x}

/-- The numbers of a linked chain count up from the first one. -/
theorem Linked.number_eq (h : Linked x blocks) : ∀ {i : Nat} {a b : Block},
    blocks[0]? = some a → blocks[i]? = some b →
      b.header.number = a.header.number + UInt64.ofNat i
  | 0, a, b, ha, hb => by
    obtain rfl := Option.some.inj (ha.symm.trans hb)
    simp
  | i + 1, a, b, ha, hb => by
    obtain ⟨hlt, hb'⟩ := List.getElem?_eq_some_iff.mp hb
    have hprev : blocks[i]? = some blocks[i] := List.getElem?_eq_getElem (by omega)
    have hstep := List.isChain_iff_getElem.mp h i (by omega)
    rw [← hb', hstep.1, h.number_eq ha hprev, UInt64.ofNat_add, UInt64.add_assoc]
    rfl

section
variable (h : Linked x blocks) (hlen : blocks.length ≤ 2 ^ 64)
include h hlen

/-- The numbers are distinct while they do not wrap around. -/
theorem Linked.number_injective {i j : Nat} {b c : Block} (hb : blocks[i]? = some b)
    (hc : blocks[j]? = some c) (heq : b.header.number = c.header.number) : i = j := by
  obtain ⟨hi, _⟩ := List.getElem?_eq_some_iff.mp hb
  obtain ⟨hj, _⟩ := List.getElem?_eq_some_iff.mp hc
  have ha : blocks[0]? = some blocks[0] := List.getElem?_eq_getElem (by omega)
  rw [h.number_eq ha hb, h.number_eq ha hc] at heq
  have hofNat : UInt64.ofNat i = UInt64.ofNat j := by simpa using heq
  have hnat := congrArg UInt64.toNat hofNat
  rwa [UInt64.toNat_ofNat_of_lt' (Nat.lt_of_lt_of_le hi hlen),
    UInt64.toNat_ofNat_of_lt' (Nat.lt_of_lt_of_le hj hlen)] at hnat

/-- Blocks of the chain with one number are one block. -/
theorem Linked.eq_of_number {b c : Block} (hb : b ∈ blocks) (hc : c ∈ blocks)
    (heq : b.header.number = c.header.number) : b = c := by
  obtain ⟨i, hi⟩ := List.mem_iff_getElem?.mp hb
  obtain ⟨j, hj⟩ := List.mem_iff_getElem?.mp hc
  obtain rfl := h.number_injective hlen hi hj heq
  exact Option.some.inj (hi.symm.trans hj)

/-- The document under a key is that of a block of the chain, and every block has its own. -/
theorem blockDoc_eq_some
    (hconv : ∀ b ∈ blocks, ∃ body, blockToCouchDoc x b = .ok body) {id : GoString} {body : Body} :
    blockDoc x blocks id = some body ↔
      ∃ b ∈ blocks, blockNumberToKey b.header.number = id ∧ blockToCouchDoc x b = .ok body := by
  unfold blockDoc
  rw [Option.bind_eq_some_iff]
  constructor
  · rintro ⟨b, hfind, hbody⟩
    have hmem := List.mem_reverse.mp (List.mem_of_find?_eq_some hfind)
    have hkey := List.find?_some hfind
    refine ⟨b, hmem, of_decide_eq_true hkey, ?_⟩
    obtain ⟨body', hbody'⟩ := hconv b hmem
    rw [hbody'] at hbody ⊢
    exact congrArg Except.ok (Option.some.inj hbody)
  · rintro ⟨b, hmem, rfl, hbody⟩
    refine ⟨b, ?_, by rw [hbody]; rfl⟩
    have hsome : (blocks.reverse.find? fun c =>
        blockNumberToKey c.header.number = blockNumberToKey b.header.number).isSome := by
      rw [List.find?_isSome]
      exact ⟨b, List.mem_reverse.mpr hmem, decide_eq_true rfl⟩
    obtain ⟨c, hc⟩ := Option.isSome_iff_exists.mp hsome
    have hkey := List.find?_some hc
    have hcmem := List.mem_reverse.mp (List.mem_of_find?_eq_some hc)
    rw [hc, h.eq_of_number hlen hcmem hmem
      (blockNumberToKey_injective (of_decide_eq_true hkey))]

end

end

end FabricPeerExt.Blkstorage
