/-
FabricPeerExt.PvtData.CouchConvTheorems — what the documents hold. The last block number is read
back as a signed number, so from 2^63 on it is not read back at all.
-/
import FabricPeerExt.PvtData.CouchConv
import FabricPeerExt.PvtData.KvEncodingTheorems

namespace FabricPeerExt.PvtData

open Lib

/-! ## §1 Ids -/

theorem blockNumberToKey_injective {m n : UInt64} (h : blockNumberToKey m = blockNumberToKey n) :
    m = n :=
  leftpad_formatUint_injective (by decide) h

theorem blockNumberToKey_ne_lastCommittedBlockID (n : UInt64) :
    blockNumberToKey n ≠ lastCommittedBlockID := by
  intro h
  have hlen := congrArg List.length h
  have hmax : (blockNumberToKey n).length = max 64 (formatUint n).length :=
    List.length_leftpad
  have hid : lastCommittedBlockID.length = 18 := rfl
  omega

theorem lookupLastBlock_of_none {db : CouchDB} (h : db.lookup lastCommittedBlockID = none) :
    lookupLastBlock db = .ok (0, none) := by
  rw [lookupLastBlock, h]

theorem ofInt_toNat (n : UInt64) : UInt64.ofInt n.toNat = n := by
  have hlt := n.toNat_lt
  rw [UInt64.ofInt, Int.emod_eq_of_lt (by omega) (by omega), Int.toNat_natCast,
    UInt64.ofNat_toNat]

theorem lookupLastBlock_of_last {db : CouchDB} {rev : Nat} {n : UInt64}
    (h : db.lookup lastCommittedBlockID = some ⟨rev, .lastCommittedBlock (formatUint n)⟩) :
    (n.toNat < 2 ^ 63 ∧ lookupLastBlock db = .ok (n, some rev)) ∨
      (2 ^ 63 ≤ n.toNat ∧ ∃ e, lookupLastBlock db = .error e) := by
  rw [lookupLastBlock, h]
  simp only [parseInt_formatUint]
  by_cases hn : n.toNat < 2 ^ 63
  · rw [if_pos hn]
    refine .inl ⟨hn, ?_⟩
    simp only [ofInt_toNat]
  · rw [if_neg hn]
    exact .inr ⟨not_lt.mp hn, _, rfl⟩

section
variable {x : Externals}

theorem dataId_injective {k k' : DataKey} (h : NulFree k.ns) (h' : NulFree k'.ns)
    (heq : dataId x k = dataId x k') : k = k' :=
  encodeDataKey_injective x h h' (hexEncode_injective heq)

theorem expiryId_injective {k k' : ExpiryKey} (heq : expiryId x k = expiryId x k') : k = k' :=
  encodeExpiryKey_injective x (hexEncode_injective heq)

/-! ## §2 Views -/

def dataAt (x : Externals) (d : BlockPvtData) (k : DataKey) : Option CollectionPvtReadWriteSet :=
  view (dataId x) (decodeDataValue x) d.data k

def expiryAt (x : Externals) (d : BlockPvtData) (ek : ExpiryKey) : Option ExpiryData :=
  view (expiryId x) (decodeExpiryValue x) d.expiry ek

theorem decodeDataValue_encodeDataValue {v : CollectionPvtReadWriteSet} {bs : Bytes}
    (h : encodeDataValue x v = .ok bs) : decodeDataValue x bs = .ok v :=
  liftErr_ok.mpr (x.collPvtRwset.unmarshal_marshal (liftErr_ok.mp h))

theorem decodeExpiryValue_encodeExpiryValue {v : ExpiryData} {bs : Bytes}
    (h : encodeExpiryValue x v = .ok bs) : decodeExpiryValue x bs = .ok v :=
  liftErr_ok.mpr (x.expiryData.unmarshal_marshal (liftErr_ok.mp h))

theorem decodeMissingDataValue_encodeMissingDataValue {v : BitSet} {bs : Bytes}
    (h : encodeMissingDataValue x v = .ok bs) : decodeMissingDataValue x bs = .ok v :=
  liftErr_ok.mpr (x.bitSet.unmarshal_marshal (liftErr_ok.mp h))

def DataEntry.toPair (de : DataEntry) : DataKey × CollectionPvtReadWriteSet := (de.key, de.value)

def ExpiryEntry.toPair (ee : ExpiryEntry) : ExpiryKey × ExpiryData := (ee.key, ee.value)

structure DocOf (x : Externals) (des : List DataEntry) (ees : List ExpiryEntry)
    (d : BlockPvtData) : Prop where
  /-- A key shows the last entry written for it. -/
  dataAt_eq : (∀ de ∈ des, NulFree de.key.ns) → ∀ k : DataKey, NulFree k.ns →
    dataAt x d k = GoMap.lastValue k (des.map DataEntry.toPair)
  expiryAt_eq : ∀ ek, expiryAt x d ek = GoMap.lastValue ek (ees.map ExpiryEntry.toPair)
  nums : d.expiringBlkNums = ees.map fun ee => blockNumberToKey ee.key.expiringBlk
  /-- Everything in the document is one of the entries. -/
  data_mem : ∀ {h bs}, d.data.lookup h = some bs →
    ∃ de ∈ des, h = dataId x de.key ∧ decodeDataValue x bs = .ok de.value
  expiry_mem : ∀ {h bs}, d.expiry.lookup h = some bs →
    ∃ ee ∈ ees, h = expiryId x ee.key ∧ decodeExpiryValue x bs = .ok ee.value

theorem createPvtDataCouchDoc_ok {des : List DataEntry} {ees : List ExpiryEntry} {n : UInt64}
    {rev : Option Nat} {o : Option CouchDoc}
    (h : createPvtDataCouchDoc x des ees n rev = .ok o) :
    (des = [] ∧ ees = [] ∧ o = none) ∨
      ((des ≠ [] ∨ ees ≠ []) ∧ ∃ d, DocOf x des ees d ∧
        o = some ⟨blockNumberToKey n, rev, false, .blockPvtData d⟩) := by
  unfold createPvtDataCouchDoc at h
  split at h
  · rename_i hnil
    rw [Bool.and_eq_true, List.isEmpty_iff, List.isEmpty_iff] at hnil
    exact .inl ⟨hnil.1, hnil.2, (Except.ok.inj h).symm⟩
  · rename_i hnil
    have hne : des ≠ [] ∨ ees ≠ [] := by
      rw [Bool.and_eq_true, List.isEmpty_iff, List.isEmpty_iff] at hnil
      tauto
    unfold dataEntriesToJSONValue expiryEntriesToJSONValue at h
    cases hps : collect (encodePair (dataId x) (encodeDataValue x))
        (des.map fun de => (de.key, de.value)) with
    | error e => simp [hps] at h
    | ok ps =>
      cases hqs : collect (encodePair (expiryId x) (encodeExpiryValue x))
          (ees.map fun ee => (ee.key, ee.value)) with
      | error e => simp [hps, hqs] at h
      | ok qs =>
        simp only [hps, hqs, Except.ok.injEq] at h
        refine .inr ⟨hne, _, ⟨?_, ?_, rfl, ?_, ?_⟩, h.symm⟩
        · intro hnul k hk
          refine (view_insertAll decodeDataValue_encodeDataValue hps ?_ ∅).trans ?_
          · intro p hp heq
            obtain ⟨de, hde, rfl⟩ := List.mem_map.mp hp
            exact dataId_injective (hnul de hde) hk heq
          · exact Option.or_none
        · intro ek
          refine (view_insertAll decodeExpiryValue_encodeExpiryValue hqs ?_ ∅).trans ?_
          · intro p _ heq
            exact expiryId_injective heq
          · exact Option.or_none
        · intro hx bs hl
          obtain ⟨p, hp, hkey, hval⟩ := mem_of_lookup_insertAll hps hl
          obtain ⟨de, hde, rfl⟩ := List.mem_map.mp hp
          exact ⟨de, hde, hkey, decodeDataValue_encodeDataValue hval⟩
        · intro hx bs hl
          obtain ⟨p, hp, hkey, hval⟩ := mem_of_lookup_insertAll hqs hl
          obtain ⟨ee, hee, rfl⟩ := List.mem_map.mp hp
          exact ⟨ee, hee, hkey, decodeExpiryValue_encodeExpiryValue hval⟩

/-! ## §3 Databases -/

/-- The shape of the document of block `b`: every data entry is the encoding of one of
the block, under the collection it names, every expiry entry the encoding of one of the
block, and every expiring block listed has an expiry entry. -/
structure DocOk (x : Externals) (b : UInt64) (d : BlockPvtData) : Prop where
  data_ok : ∀ {h bs}, d.data.lookup h = some bs → ∃ k v, k.blkNum = b ∧ NulFree k.ns ∧
    h = dataId x k ∧ decodeDataValue x bs = .ok v ∧ v.collectionName = k.coll
  expiry_ok : ∀ {h bs}, d.expiry.lookup h = some bs → ∃ e ed,
    h = expiryId x ⟨e, b⟩ ∧ decodeExpiryValue x bs = .ok ed
  nums_ok : ∀ n ∈ d.expiringBlkNums, ∃ e ed,
    n = blockNumberToKey e ∧ expiryAt x d ⟨e, b⟩ = some ed

/-- A document made from entries of block `b` has the shape. -/
theorem DocOf.docOk {des : List DataEntry} {ees : List ExpiryEntry} {d : BlockPvtData}
    {b : UInt64} (h : DocOf x des ees d)
    (hdes : ∀ de ∈ des, de.key.blkNum = b ∧ NulFree de.key.ns ∧
      de.value.collectionName = de.key.coll)
    (hees : ∀ ee ∈ ees, ee.key.committingBlk = b) : DocOk x b d where
  data_ok hl := by
    obtain ⟨de, hde, hkey, hval⟩ := h.data_mem hl
    obtain ⟨hb, hnul, hcoll⟩ := hdes de hde
    exact ⟨de.key, de.value, hb, hnul, hkey, hval, hcoll⟩
  expiry_ok hl := by
    obtain ⟨ee, hee, hkey, hval⟩ := h.expiry_mem hl
    refine ⟨ee.key.expiringBlk, ee.value, ?_, hval⟩
    rw [hkey, ← hees ee hee]
  nums_ok n hn := by
    rw [h.nums] at hn
    obtain ⟨ee, hee, rfl⟩ := List.mem_map.mp hn
    have hkey : ee.key = ⟨ee.key.expiringBlk, b⟩ := by rw [← hees ee hee]
    cases hl : GoMap.lastValue (⟨ee.key.expiringBlk, b⟩ : ExpiryKey)
        (ees.map ExpiryEntry.toPair) with
    | none =>
      rw [GoMap.lastValue_eq_none, List.map_map, ← hkey] at hl
      exact absurd (List.mem_map_of_mem (f := Prod.fst ∘ ExpiryEntry.toPair) hee) hl
    | some ed => exact ⟨ee.key.expiringBlk, ed, rfl, (h.expiryAt_eq _).trans hl⟩

def GoodDoc (x : Externals) (id : GoString) (body : DocBody) : Prop :=
  (id = lastCommittedBlockID ∧ ∃ n, body = .lastCommittedBlock (formatUint n)) ∨
    ∃ b d, id = blockNumberToKey b ∧ body = .blockPvtData d ∧ DocOk x b d

def DbOk (x : Externals) (db : CouchDB) : Prop :=
  ∀ id sd, db.lookup id = some sd → GoodDoc x id sd.body

theorem DbOk.empty : DbOk x ∅ := by
  intro id sd h
  cases h

theorem DbOk.put {db : CouchDB} {doc : CouchDoc} (h : DbOk x db)
    (hdoc : GoodDoc x doc.id doc.body) : DbOk x (db.put doc) := by
  intro id sd hl
  rw [DocStore.lookup_put] at hl
  split at hl
  · rename_i hc
    unfold DocStore.outcome at hl
    split at hl
    · cases hl
    · rw [← Option.some.inj hl, hc.1]
      exact hdoc
  · exact h id sd hl

theorem DbOk.bulk {docs : List CouchDoc} (hdocs : ∀ doc ∈ docs, GoodDoc x doc.id doc.body) :
    ∀ {db : CouchDB}, DbOk x db → DbOk x (db.bulk docs) := by
  induction docs with
  | nil => exact id
  | cons doc docs ih =>
    intro db h
    exact ih (fun d hd => hdocs d (List.mem_cons_of_mem doc hd))
      (h.put (hdocs doc List.mem_cons_self))

/-- A stored document under a block's id is a block document. -/
theorem DbOk.block {db : CouchDB} (h : DbOk x db) {b : UInt64} {sd : StoredDoc DocBody}
    (hl : db.lookup (blockNumberToKey b) = some sd) :
    ∃ d, sd.body = .blockPvtData d ∧ DocOk x b d := by
  rcases h _ sd hl with ⟨hid, _⟩ | ⟨b', d, hid, hbody, hd⟩
  · exact absurd hid (blockNumberToKey_ne_lastCommittedBlockID b)
  · rw [blockNumberToKey_injective hid]
    exact ⟨d, hbody, hd⟩

end

end FabricPeerExt.PvtData
