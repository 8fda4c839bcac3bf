/-
FabricPeerExt.Blkstorage.LookupTheorems — transactions by ID (`lookups_agree`) and by position
(`atPosition_iff`), and their export (`export_canonical_iff`).

Two assumptions are named: no two headers of the chain have one hash (`NoCollision`), and there
are at most `2 ^ 64` blocks.
-/
import FabricPeerExt.Blkstorage.IteratorTheorems
import Mathlib.Data.List.Shortlex

namespace FabricPeerExt.Blkstorage

open Lib
open PvtData (GoString Err)

section
variable (x : Externals)

/-! ## Occurrences -/

def TxAt (data : List Bytes) (i : Nat) (envelope : Envelope) (txID : GoString) : Prop :=
  ∃ bytes, data[i]? = some bytes ∧ envelopeAndTxID x bytes = .ok (envelope, txID)

def FirstAt (data : List Bytes) (i : Nat) (envelope : Envelope) (txID : GoString) : Prop :=
  TxAt x data i envelope txID ∧ ∀ j < i, ∀ e, ¬ TxAt x data j e txID

def FirstStored (blocks : List Block) (txID : GoString) (b : Block) (i : Nat)
    (envelope : Envelope) : Prop :=
  (∃ before after, blocks = before ++ b :: after ∧
    ∀ c ∈ before, ∀ j e, ¬ TxAt x c.data j e txID) ∧ FirstAt x b.data i envelope txID

/-- No two blocks of the chain with different headers have one hash. -/
def NoCollision (blocks : List Block) : Prop :=
  ∀ b ∈ blocks, ∀ c ∈ blocks, x.blockHeaderHash b.header = x.blockHeaderHash c.header →
    b.header = c.header

instance (blocks : List Block) : Decidable (NoCollision x blocks) :=
  inferInstanceAs (Decidable (∀ b ∈ blocks, ∀ c ∈ blocks, _ → _))

variable {rest : List Bytes} {t : GoString}

variable {b : Block} {bytes : Bytes} {e : Envelope}

theorem txAt_zero :
    TxAt x (bytes :: rest) 0 e t ↔ envelopeAndTxID x bytes = .ok (e, t) := by
  simp [TxAt]

theorem txAt_succ {i : Nat} :
    TxAt x (bytes :: rest) (i + 1) e t ↔ TxAt x rest i e t := by
  simp [TxAt]

theorem firstAt_succ {i : Nat} {e' : Envelope}
    {t t' : GoString} (h : envelopeAndTxID x bytes = .ok (e', t')) (hne : t' ≠ t) :
    FirstAt x (bytes :: rest) (i + 1) e t ↔ FirstAt x rest i e t := by
  unfold FirstAt
  rw [txAt_succ]
  refine and_congr_right fun _ => ⟨fun hall j hj e₁ h₁ => ?_, fun hall j hj e₁ h₁ => ?_⟩
  · exact hall (j + 1) (Nat.succ_lt_succ hj) e₁ ((txAt_succ x).mpr h₁)
  · cases j with
    | zero =>
      rw [txAt_zero, h] at h₁
      exact hne (Prod.mk.inj (Except.ok.inj h₁)).2
    | succ j => exact hall j (Nat.lt_of_succ_lt_succ hj) e₁ ((txAt_succ x).mp h₁)

/-! ## A block -/

/-- The document a block gives to an ID: none if the ID does not occur in it, and otherwise
that of the first occurrence. -/
theorem find_txnCouchDocsFrom {number hash flags : Bytes} (ht : t ≠ []) :
    ∀ {k : Nat} {data : List Bytes} {docs : List (Doc Body)},
      txnCouchDocsFrom x number hash flags k data = .ok docs →
      (docs.find? (fun d => d.id = t) = none ∧ ∀ i e, ¬ TxAt x data i e t) ∨
        ∃ i e code, FirstAt x data i e t ∧ flags[k + i]? = some code ∧
          docs.find? (fun d => d.id = t) = some (blockTxnToCouchDoc number hash t code)
  | _, [], _, h => by
    cases h
    exact Or.inl ⟨rfl, fun i e ⟨_, hi, _⟩ => nomatch hi⟩
  | k, bytes :: rest, docs, h => by
    obtain ⟨env, id, code, docs', hbytes, hcode, hrest, rfl⟩ :=
      (txnCouchDocsFrom_cons_ok x).mp h
    by_cases hid : id = t
    · subst hid
      right
      refine ⟨0, env, code, ⟨(txAt_zero x).mpr hbytes, fun _ hj => ?_⟩, hcode, ?_⟩
      · exact absurd hj (Nat.not_lt_zero _)
      rw [if_neg ht, List.find?_cons_of_pos]
      exact decide_eq_true rfl
    · -- the element has another ID, or none, and so has its document
      have hfind :
          (if id = [] then docs' else blockTxnToCouchDoc number hash id code :: docs').find?
            (fun d => d.id = t) = docs'.find? (fun d => d.id = t) := by
        split
        next => rfl
        next =>
          rw [List.find?_cons_of_neg]
          exact fun hc => hid (of_decide_eq_true hc)
      rw [hfind]
      rcases find_txnCouchDocsFrom ht hrest with ⟨hnone, hno⟩ | ⟨i, e, c, hfirst, hc, hsome⟩
      · refine Or.inl ⟨hnone, fun i e hat => ?_⟩
        cases i with
        | zero =>
          rw [txAt_zero, hbytes] at hat
          exact hid (Prod.mk.inj (Except.ok.inj hat)).2
        | succ i => exact hno i e ((txAt_succ x).mp hat)
      · refine Or.inr ⟨i + 1, e, c, (firstAt_succ x hbytes hid).mpr hfirst, ?_, hsome⟩
        rw [← hc]
        congr 1
        omega

/-- The search in a block whose transactions can all be read ends at the first occurrence. -/
theorem extractTxnEnvelopeFromBlock_eq {number hash flags : Bytes} :
    ∀ {k i : Nat} {data : List Bytes} {docs : List (Doc Body)},
      txnCouchDocsFrom x number hash flags k data = .ok docs → FirstAt x data i e t →
      extractTxnEnvelopeFromBlock x t data = .ok e
  | _, i, [], _, _, hfirst => by
    obtain ⟨⟨_, hi, _⟩, _⟩ := hfirst
    cases hi
  | k, i, bytes :: rest, docs, h, hfirst => by
    obtain ⟨env, id, code, docs', hbytes, _, hrest, _⟩ := (txnCouchDocsFrom_cons_ok x).mp h
    simp only [extractTxnEnvelopeFromBlock, hbytes]
    by_cases hid : id = t
    · subst hid
      rw [if_neg (not_not.mpr rfl)]
      cases i with
      | zero =>
        have hat := (txAt_zero x).mp hfirst.1
        rw [hbytes] at hat
        exact congrArg Except.ok (Prod.mk.inj (Except.ok.inj hat)).1
      | succ i =>
        exact absurd ((txAt_zero x).mpr hbytes) (hfirst.2 0 (Nat.succ_pos i) env)
    · rw [if_pos hid]
      cases i with
      | zero =>
        have hat := (txAt_zero x).mp hfirst.1
        rw [hbytes] at hat
        exact absurd (Prod.mk.inj (Except.ok.inj hat)).2 hid
      | succ i =>
        exact extractTxnEnvelopeFromBlock_eq hrest ((firstAt_succ x hbytes hid).mp hfirst)

/-! ## The chain -/

def flagAt (b : Block) (i : Nat) : Option UInt8 :=
  (b.metadata[transactionsFilter]?).bind fun flags => flags[i]?

theorem find_txnDocs {docs : List (Doc Body)} (ht : t ≠ [])
    (h : blockToTxnCouchDocs x b = .ok docs) :
    (docs.find? (fun d => d.id = t) = none ∧ ∀ i e, ¬ TxAt x b.data i e t) ∨
      ∃ i e code, FirstAt x b.data i e t ∧ flagAt b i = some code ∧
        extractTxnEnvelopeFromBlock x t b.data = .ok e ∧
        docs.find? (fun d => d.id = t) = some (blockTxnToCouchDoc
          (blockNumberToKey b.header.number) (hexEncode (x.blockHeaderHash b.header)) t code) := by
  unfold blockToTxnCouchDocs at h
  split at h
  next => cases h
  next flags hflags =>
    refine (find_txnCouchDocsFrom x ht h).imp_right ?_
    rintro ⟨i, e, code, hfirst, hcode, hfind⟩
    refine ⟨i, e, code, hfirst, ?_, extractTxnEnvelopeFromBlock_eq x h hfirst, hfind⟩
    rw [flagAt, hflags, Option.bind_some, ← hcode, Nat.zero_add]

/-- The document of a transaction ID is that of its first occurrence in the chain. -/
theorem txnDoc_cases (ht : t ≠ []) : ∀ {blocks : List Block},
    (∀ b ∈ blocks, ∃ docs, blockToTxnCouchDocs x b = .ok docs) →
    (txnDoc x blocks t = none ∧ ∀ b ∈ blocks, ∀ i e, ¬ TxAt x b.data i e t) ∨
      ∃ b ∈ blocks, ∃ i e code, FirstStored x blocks t b i e ∧ flagAt b i = some code ∧
        extractTxnEnvelopeFromBlock x t b.data = .ok e ∧
        txnDoc x blocks t = some (blockTxnToCouchDoc (blockNumberToKey b.header.number)
          (hexEncode (x.blockHeaderHash b.header)) t code).body
  | [], _ => Or.inl ⟨rfl, fun _ h => nomatch h⟩
  | b :: blocks, hall => by
    obtain ⟨docs, hdocs⟩ := hall b List.mem_cons_self
    have hb : txnDocs x b = docs := by rw [txnDocs, hdocs]; rfl
    rcases find_txnDocs x ht hdocs with ⟨hnone, hno⟩ | ⟨i, e, code, hfirst, hcode, hext, hfind⟩
    · have hskip : txnDoc x (b :: blocks) t = txnDoc x blocks t := by
        rw [txnDoc, List.flatMap_cons, List.find?_append, hb, hnone, Option.none_or, txnDoc]
      have hrest : ∀ c ∈ blocks, ∃ docs, blockToTxnCouchDocs x c = .ok docs :=
        fun c hc => hall c (List.mem_cons_of_mem b hc)
      rcases txnDoc_cases ht hrest with
        ⟨hnone', hno'⟩ | ⟨c, hc, i, e, code, ⟨⟨before, after, heq, hbefore⟩, hfirst⟩, hrest⟩
      · left
        refine ⟨hskip.trans hnone', fun c hc => ?_⟩
        rcases List.mem_cons.mp hc with rfl | hc
        · exact hno
        · exact hno' c hc
      · right
        refine ⟨c, List.mem_cons_of_mem b hc, i, e, code, ⟨⟨b :: before, after, ?_, ?_⟩, hfirst⟩,
          hskip ▸ hrest⟩
        · rw [heq, List.cons_append]
        · intro d hd
          rcases List.mem_cons.mp hd with rfl | hd
          · exact hno
          · exact hbefore d hd
    · right
      refine ⟨b, List.mem_cons_self, i, e, code,
        ⟨⟨[], blocks, rfl, fun _ h => nomatch h⟩, hfirst⟩, hcode, hext, ?_⟩
      rw [txnDoc, List.flatMap_cons, List.find?_append, hb, hfind]
      rfl

/-- The document of a block has the hash of its header, and the block. -/
theorem header_blockToCouchDoc {body : Body} (h : blockToCouchDoc x b = .ok body) :
    body.fields.lookup .header = some (.header (hexEncode (x.blockHeaderHash b.header))) ∧
      body.attachments ≠ [] := by
  unfold blockToCouchDoc at h
  split at h
  next => cases h
  next =>
    split at h
    next => cases h
    next =>
      obtain rfl := Except.ok.inj h
      exact ⟨rfl, List.cons_ne_nil _ _⟩

variable {x} in
/-- The query for the hash of a block of the chain finds the block. -/
theorem Contents.retrieveBlockByHash {db : Databases} {blocks : List Block}
    (h : Contents x db blocks) (hl : Linked x blocks) (hlen : blocks.length ≤ 2 ^ 64)
    (hcoll : NoCollision x blocks) (hb : b ∈ blocks) :
    retrieveBlockByHash x db.blockStore (x.blockHeaderHash b.header) = .ok b := by
  have hconv : ∀ b ∈ blocks, ∃ body, blockToCouchDoc x b = .ok body := fun c hc =>
    (h.converted c hc).1
  -- what the query finds are documents of the block itself
  have hfound : ∀ doc ∈ queryByHash db.blockStore (hexEncode (x.blockHeaderHash b.header)),
      blockToCouchDoc x b = .ok doc := by
    intro doc hdoc
    obtain ⟨hmem, hheader⟩ := List.mem_filter.mp hdoc
    obtain ⟨⟨id, stored⟩, hstored, rfl⟩ := List.mem_map.mp hmem
    have hread : readDoc db.blockStore id = some stored.body := by
      rw [readDoc, GoMap.mem_toList.mp hstored]
      rfl
    have hheader' := of_decide_eq_true hheader
    have hid : id ≠ blkMgrInfoKey := fun hc =>
      h.checkpoint stored.body (hc ▸ hread) ⟨_, hheader'⟩
    rw [h.blockAt id hid] at hread
    obtain ⟨c, hc, _, hcbody⟩ := (blockDoc_eq_some hl hlen hconv).mp hread
    have hhash := (header_blockToCouchDoc x hcbody).1.symm.trans hheader'
    simp only [Option.some.injEq, JsonValue.header.injEq] at hhash
    have heq := hcoll c hc b hb (hexEncode_injective hhash)
    rwa [hl.eq_of_number hlen hc hb (congrArg BlockHeader.number heq)] at hcbody
  obtain ⟨body, hbody⟩ := hconv b hb
  have hread : readDoc db.blockStore (blockNumberToKey b.header.number) = some body := by
    rw [h.blockAt _ (blockNumberToKey_ne_blkMgrInfoKey _)]
    exact (blockDoc_eq_some hl hlen hconv).mpr ⟨b, hb, rfl, hbody⟩
  have hmem : body ∈ queryByHash db.blockStore (hexEncode (x.blockHeaderHash b.header)) := by
    obtain ⟨stored, hstored, rfl⟩ := Option.map_eq_some_iff.mp hread
    exact List.mem_filter.mpr ⟨List.mem_map.mpr ⟨(_, stored), GoMap.mem_toList.mpr hstored, rfl⟩,
      decide_eq_true (header_blockToCouchDoc x hbody).1⟩
  unfold Blkstorage.retrieveBlockByHash
  split
  next hnil =>
    rw [hnil] at hmem
    cases hmem
  next doc docs hquery =>
    have hdoc := hfound doc (hquery ▸ List.mem_cons_self)
    split
    next hnil => exact absurd hnil (header_blockToCouchDoc x hdoc).2
    next => exact couchAttachmentsToBlock_blockToCouchDoc x hdoc

/-- After every run that works, the three lookups of a transaction ID that occurs refer to its
first occurrence: its envelope, its block, and its validation code in the block's filter. -/
theorem lookups_agree {ops : List Op} (hw : Meets (Op.step x) (Works x) History.start ops)
    (hlen : (run (Op.step x) History.start ops).accepted.length ≤ 2 ^ 64)
    (hcoll : NoCollision x (run (Op.step x) History.start ops).accepted) {txID : GoString}
    (hid : txID ≠ [])
    (hoccurs : ∃ b ∈ (run (Op.step x) History.start ops).accepted, ∃ i e,
      TxAt x b.data i e txID) :
    let st := run (Op.step x) History.start ops
    ∃ b ∈ st.accepted, ∃ i e code, FirstStored x st.accepted txID b i e ∧
      flagAt b i = some code ∧
      retrieveTxByID x st.sys.db txID = .ok e ∧
      retrieveBlockByTxID x st.sys.db txID = .ok b ∧
      retrieveTxValidationCodeByTxID st.sys.db txID = .ok code.toNat := by
  intro st
  have hc : Contents x st.sys.db st.accepted := contents_run x hw
  have hl : Linked x st.accepted := (consistent_run x ops).linked
  rcases txnDoc_cases x hid fun b hb => (hc.converted b hb).2 with
    ⟨_, hno⟩ | ⟨b, hb, i, e, code, hfirst, hcode, hext, hdoc⟩
  · obtain ⟨b, hb, i, e, hat⟩ := hoccurs
    exact absurd hat (hno b hb i e)
  · have hread := (hc.txnAt txID).trans hdoc
    have hblock : retrieveBlockByTxID x st.sys.db txID = .ok b := by
      have hfield : txnField st.sys.db.txnStore .blockHash "block hash" txID =
          .ok (hexEncode (x.blockHeaderHash b.header)) := by
        simp only [txnField, hread]
        rfl
      simp only [retrieveBlockByTxID, retrieveBlockHashByTxID, hfield, hexDecode_hexEncode,
        hc.retrieveBlockByHash hl hlen hcoll hb]
    refine ⟨b, hb, i, e, code, hfirst, hcode, ?_, hblock, ?_⟩
    · simp only [retrieveTxByID, hread, hblock, hext]
    · have hfield : txnField st.sys.db.txnStore .validationCode "validation code" txID =
          .ok (formatInt16 code.toNat) := by
        simp only [txnField, hread]
        rfl
      have hlt : code.toNat < 2 ^ 31 := Nat.lt_trans code.toNat_lt (by decide)
      simp only [retrieveTxValidationCodeByTxID, hfield, parseInt16_formatInt16 hlt]

end

def repeatedIDs : List Op :=
  let b₀ := plainBlock 0 [] [[7], [5], [5]] [0, 11, 9]
  [.reopen true ⟨0, 0⟩ none, .addBlock b₀ none,
    .addBlock (plainNext b₀ [[5], [6]] [9, 0]) none]

theorem lookups_agree_repeatedIDs :
    let st := run (Op.step plainExternals) History.start repeatedIDs
    ∃ b ∈ st.accepted, ∃ i e code, FirstStored plainExternals st.accepted [5] b i e ∧
      flagAt b i = some code ∧
      retrieveTxByID plainExternals st.sys.db [5] = .ok e ∧
      retrieveBlockByTxID plainExternals st.sys.db [5] = .ok b ∧
      retrieveTxValidationCodeByTxID st.sys.db [5] = .ok code.toNat :=
  lookups_agree plainExternals (by decide +kernel) (by decide +kernel) (by decide +kernel)
    (by decide) ⟨plainBlock 0 [] [[7], [5], [5]] [0, 11, 9], by decide +kernel, 1, ⟨[5], []⟩,
      [5], rfl, rfl⟩

section
variable (x : Externals)

/-! ## Lookup by position -/

/-- The block was written and a read of its number, in the cache or the database, returns it.
Its length is that of a slice. -/
structure IsStored (s : CdbBlockStore) (b : Block) : Prop where
  written : ∃ body, blockToCouchDoc x b = .ok body
  read : (s.cache.getBlockByNumber x s.db.blockStore b.header.number).2 = .ok b
  length : b.data.length < 2 ^ 63

/-- What a lookup of a position in the block is to return. -/
def AtPosition (b : Block) (tranNum : UInt64) (r : Except Err Envelope) : Prop :=
  match b.data[tranNum.toNat]? with
  | some bytes => ∃ envelope, x.getEnvelopeFromBlock bytes = .ok envelope ∧ r = .ok envelope
  | none => ∃ message, r = .error (.plain message)

theorem getEnvelopeFromBlock_ok : ∀ {data : List Bytes} {txIDs : List GoString},
    blockToTransactionsField x data = .ok txIDs →
      ∀ bytes ∈ data, ∃ envelope, x.getEnvelopeFromBlock bytes = .ok envelope
  | [], _, _, _, hmem => nomatch hmem
  | first :: rest, txIDs, h, bytes, hmem => by
    rw [blockToTransactionsField] at h
    cases hfirst : x.getEnvelopeFromBlock first with
    | error e => simp [hfirst] at h
    | ok envelope =>
      rcases List.mem_cons.mp hmem with rfl | hmem
      · exact ⟨envelope, hfirst⟩
      · cases hrest : blockToTransactionsField x rest with
        | error e =>
          cases hid : extractTxIDFromEnvelope x envelope <;> simp [hfirst, hid, hrest] at h
        | ok ids => exact getEnvelopeFromBlock_ok hrest bytes hmem

/-- A position is looked up as it should be exactly in the blocks that have a transaction. -/
theorem atPosition_iff {s : CdbBlockStore} {b : Block} (h : IsStored x s b) :
    (∀ t, AtPosition x b t (s.retrieveTxByBlockNumTranNum x b.header.number t).2) ↔
      b.data ≠ [] := by
  have hread : ∀ t, (s.retrieveTxByBlockNumTranNum x b.header.number t).2 =
      extractEnvelopeFromBlock x b t := by
    intro t
    rw [CdbBlockStore.retrieveTxByBlockNumTranNum]
    rcases hget : s.cache.getBlockByNumber x s.db.blockStore b.header.number with ⟨c, r⟩
    obtain rfl : r = .ok b := by simpa [hget] using h.read
    rfl
  simp only [hread]
  constructor
  · -- the bound of an empty block is the greatest number
    intro hall hnil
    have h0 := hall 0
    simp [AtPosition, extractEnvelopeFromBlock, hnil] at h0
  · intro hne t
    have hpos : 0 < b.data.length := List.length_pos_iff.mpr hne
    have hlen := h.length
    have hbound : UInt64.ofNat b.data.length - 1 < t ↔ b.data.length ≤ t.toNat := by
      rw [UInt64.lt_iff_toNat_lt, UInt64.toNat_sub, UInt64.toNat_ofNat', UInt64.toNat_one]
      omega
    unfold AtPosition extractEnvelopeFromBlock
    simp only [hbound]
    cases hget : b.data[t.toNat]? with
    | none =>
      rw [if_pos (List.getElem?_eq_none_iff.mp hget)]
      exact ⟨_, rfl⟩
    | some bytes =>
      obtain ⟨hlt, _⟩ := List.getElem?_eq_some_iff.mp hget
      obtain ⟨body, hbody⟩ := h.written
      obtain ⟨txIDs, htx⟩ : ∃ txIDs, blockToTransactionsField x b.data = .ok txIDs := by
        cases htx : blockToTransactionsField x b.data with
        | error e => simp [blockToCouchDoc, htx] at hbody
        | ok txIDs => exact ⟨txIDs, rfl⟩
      obtain ⟨envelope, henv⟩ := getEnvelopeFromBlock_ok x htx bytes (List.mem_of_getElem? hget)
      rw [if_neg (Nat.not_le.mpr hlt)]
      simp only [henv]
      exact ⟨envelope, rfl, rfl⟩

/-! ## Export -/

/-- The transaction is in the chain, with an ID. -/
def HasTx (blocks : List Block) (txID : GoString) : Prop :=
  txID ≠ [] ∧ ∃ b ∈ blocks, ∃ i e, TxAt x b.data i e txID

/-- The IDs of the chain, each once, in the documented order. -/
structure Canonical (blocks : List Block) (ids : List GoString) : Prop where
  sorted : ids.Pairwise (List.Shortlex (· < ·))
  mem_iff : ∀ txID, txID ∈ ids ↔ HasTx x blocks txID

def filesOf (ids : List GoString) : Option (SnapshotFile GoString × SnapshotFile Nat) :=
  if ids = [] then none
  else some (⟨snapshotFileFormat, ids⟩, ⟨snapshotFileFormat, [ids.length]⟩)

theorem exportTxIds_eq (order : RangeOrder GoString) (db : Databases) :
    CdbBlockStore.exportTxIds order db = filesOf (order.order db.txnStore.keys) := by
  unfold CdbBlockStore.exportTxIds exportTxIDs filesOf
  cases order.order db.txnStore.keys <;> rfl

theorem filesOf_injective : Function.Injective filesOf := by
  intro ids ids' h
  unfold filesOf at h
  split at h <;> split at h <;> simp_all

theorem Canonical.eq {blocks : List Block} {ids ids' : List GoString}
    (h : Canonical x blocks ids) (h' : Canonical x blocks ids') : ids = ids' := by
  refine List.Perm.eq_of_pairwise (fun _ _ _ _ hlt hgt => absurd hgt (asymm hlt))
    h.sorted h'.sorted ?_
  rw [List.perm_ext_iff_of_nodup h.sorted.nodup h'.sorted.nodup]
  exact fun txID => (h.mem_iff txID).trans (h'.mem_iff txID).symm

theorem Contents.mem_keys {db : Databases} {blocks : List Block} (h : Contents x db blocks)
    (txID : GoString) : txID ∈ db.txnStore.keys ↔ HasTx x blocks txID := by
  have hread : txID ∈ db.txnStore.keys ↔ (txnDoc x blocks txID).isSome = true := by
    rw [← h.txnAt, readDoc, Option.isSome_map, AList.lookup_isSome, AList.mem_keys]
  rw [hread]
  by_cases hid : txID = []
  · -- no document has the empty ID
    refine iff_of_false (fun hsome => ?_) fun ht => ht.1 hid
    rw [txnDoc, Option.isSome_map, List.find?_isSome] at hsome
    obtain ⟨doc, hmem, heq⟩ := hsome
    obtain ⟨b, hb, hmem⟩ := List.mem_flatMap.mp hmem
    obtain ⟨docs, hdocs⟩ := (h.converted b hb).2
    rw [txnDocs, hdocs] at hmem
    exact (blockToTxnCouchDocs_new x hdocs doc hmem).1 ((of_decide_eq_true heq).trans hid)
  · rcases txnDoc_cases x hid fun b hb => (h.converted b hb).2 with
      ⟨hnone, hno⟩ | ⟨b, hb, i, e, _, hfirst, _, _, hdoc⟩
    · simp only [hnone, Option.isSome_none, Bool.false_eq_true, false_iff]
      rintro ⟨_, b, hb, i, e, hat⟩
      exact hno b hb i e hat
    · simp only [hdoc, Option.isSome_some, true_iff]
      exact ⟨hid, b, hb, i, e, hfirst.2.1⟩

/-- Two stores that hold the same chain export the same canonical files, in whatever order the
queries return the documents, exactly if the chain has at most one transaction ID. -/
theorem export_canonical_iff {blocks : List Block} {db db' : Databases}
    (h : Contents x db blocks) (h' : Contents x db' blocks) :
    (∀ order order',
      CdbBlockStore.exportTxIds order db = CdbBlockStore.exportTxIds order' db' ∧
        ∃ ids, Canonical x blocks ids ∧ CdbBlockStore.exportTxIds order db = filesOf ids) ↔
      ∀ t t', HasTx x blocks t → HasTx x blocks t' → t = t' := by
  simp only [exportTxIds_eq, filesOf_injective.eq_iff]
  constructor
  · -- no list of two IDs is sorted forwards and backwards
    intro hall t t' ht ht'
    obtain ⟨_, _, hsorted, rfl⟩ := hall (.listed _) (.listed _)
    obtain ⟨_, _, hsorted', rfl⟩ := hall ⟨List.reverse, List.reverse_perm⟩ (.listed _)
    have hnone : db.txnStore.keys.Pairwise fun _ _ => False :=
      (hsorted.sorted.and (List.pairwise_reverse.mp hsorted'.sorted)).imp
        fun hlt => asymm hlt.1 hlt.2
    by_contra hne
    have : Std.Symm fun _ _ : GoString => False := ⟨fun _ _ h => h⟩
    exact hnone.forall ((h.mem_keys x t).mpr ht) ((h.mem_keys x t').mpr ht') hne
  · intro hone order order'
    have hsingle : ∀ (order : RangeOrder GoString) {db : Databases}, Contents x db blocks →
        Canonical x blocks (order.order db.txnStore.keys) := by
      intro order db h
      have hp := order.perm db.txnStore.keys
      refine ⟨(hp.nodup_iff.mpr db.txnStore.keys_nodup).pairwise_of_forall_ne ?_,
        fun txID => hp.mem_iff.trans (h.mem_keys x txID)⟩
      intro t ht t' ht' hne
      rw [hp.mem_iff, h.mem_keys x] at ht ht'
      exact absurd (hone t t' ht ht') hne
    have hids := hsingle order h
    exact ⟨hids.eq x (hsingle order' h'), _, hids, rfl⟩

end

/-- A committer adds a block without transactions and looks up its first position. -/
theorem atPosition_emptyBlock :
    let st := run (Op.step plainExternals) History.start
      [.reopen true ⟨0, 0⟩ none, .addBlock (plainBlock 0 [] [] []) none]
    ∃ s, st.sys = .up true s ∧ IsStored plainExternals s (plainBlock 0 [] [] []) ∧
      (s.retrieveTxByBlockNumTranNum plainExternals 0 0).2 =
        .error (.panic "index out of range") :=
  ⟨_, rfl, ⟨⟨_, rfl⟩, by decide +kernel, by decide⟩, by decide +kernel⟩

theorem atPosition_iff_sample : ∃ s,
    (run (Op.step plainExternals) History.start repeatedIDs).sys = .up true s ∧
      ∀ t, AtPosition plainExternals (plainBlock 0 [] [[7], [5], [5]] [0, 11, 9]) t
        (s.retrieveTxByBlockNumTranNum plainExternals 0 t).2 :=
  ⟨_, rfl, (atPosition_iff plainExternals ⟨⟨_, rfl⟩, by decide +kernel, by decide⟩).mpr
    (by decide)⟩

/-- One chain with two transaction IDs, exported in either order. -/
theorem export_twoIDs :
    let db := (run (Op.step plainExternals) History.start
      [.reopen true ⟨0, 0⟩ none, .addBlock (plainBlock 0 [] [[7], [5]] [0, 0]) none]).sys.db
    CdbBlockStore.exportTxIds (.listed _) db = some (⟨1, [[5], [7]]⟩, ⟨1, [2]⟩) ∧
      CdbBlockStore.exportTxIds ⟨List.reverse, List.reverse_perm⟩ db =
        some (⟨1, [[7], [5]]⟩, ⟨1, [2]⟩) := by
  decide +kernel

def oneID : List Op := [.reopen true ⟨0, 0⟩ none, .addBlock (plainBlock 0 [] [[5]] [0]) none]

theorem export_canonical_oneID :
    let st := run (Op.step plainExternals) History.start oneID
    st.sys.db.txnStore.keys = [[5]] ∧ ∀ order order',
      CdbBlockStore.exportTxIds order st.sys.db = CdbBlockStore.exportTxIds order' st.sys.db ∧
        ∃ ids, Canonical plainExternals st.accepted ids ∧
          CdbBlockStore.exportTxIds order st.sys.db = filesOf ids := by
  have hc := @contents_run plainExternals oneID (by decide +kernel)
  have hkeys : (run (Op.step plainExternals) History.start oneID).sys.db.txnStore.keys = [[5]] := by
    decide +kernel
  refine ⟨hkeys, (export_canonical_iff plainExternals hc hc).mpr fun t t' ht ht' => ?_⟩
  rw [← hc.mem_keys, hkeys, List.mem_singleton] at ht ht'
  rw [ht, ht']

end FabricPeerExt.Blkstorage
