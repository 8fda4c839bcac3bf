/-
FabricPeerExt.PvtData.ReconcileTheorems — what one `CommitPvtDataOfOldBlocks` does: it fails and
changes nothing, or it is `Reconciled`.
-/
import FabricPeerExt.PvtData.CommitTheorems
import FabricPeerExt.PvtData.OldBlocksTheorems

namespace FabricPeerExt.PvtData

open Lib

namespace Store

section
variable {x : Externals} {btlPolicy : BtlPolicy}

/-! ## Reading the document of a block -/

variable {db : CouchDB} {b : UInt64}

theorem retrieveBlockPvtData_of_none (h : db.lookup (blockNumberToKey b) = none) :
    retrieveBlockPvtData db (blockNumberToKey b) = .error .notFoundInIndex := by
  rw [retrieveBlockPvtData, h]

theorem retrieveBlockPvtData_of_some {rev : Nat} {d : BlockPvtData}
    (h : db.lookup (blockNumberToKey b) = some ⟨rev, .blockPvtData d⟩) :
    retrieveBlockPvtData db (blockNumberToKey b) =
      .ok { toBlockPvtData := d, id := blockNumberToKey b, rev := rev, deleted := false } := by
  rw [retrieveBlockPvtData, h]
  rfl

/-- A block has a document with content, or none. -/
theorem lookup_cases (hdb : DbOk x db) (b : UInt64) :
    db.lookup (blockNumberToKey b) = none ∨
      ∃ rev d, db.lookup (blockNumberToKey b) = some ⟨rev, .blockPvtData d⟩ ∧ DocOk x b d := by
  cases hl : db.lookup (blockNumberToKey b) with
  | none => exact .inl rfl
  | some sd =>
    obtain ⟨rev, body⟩ := sd
    obtain ⟨d, rfl, hd⟩ := hdb.block hl
    exact .inr ⟨rev, d, rfl, hd⟩

/-- The expiry data handed to the processor is the stored one. -/
theorem getExpiryDataOfExpiryKey_eq {s : Store} (hdb : DbOk x s.db) (ek : ExpiryKey) :
    getExpiryDataOfExpiryKey x s ek = .ok (s.expiryAt x ek) := by
  unfold getExpiryDataOfExpiryKey getExpiryEntriesDB Store.expiryAt
  rcases lookup_cases hdb ek.committingBlk with hl | ⟨rev, d, hl, hd⟩
  · rw [retrieveBlockPvtData_of_none hl, blockDoc, hl]
    rfl
  · rw [retrieveBlockPvtData_of_some hl, blockDoc_of_lookup hl, Option.bind_some,
      PvtData.expiryAt, view]
    cases hv : d.expiry.lookup (expiryId x ek) with
    | none => simp [hv]
    | some bs =>
      obtain ⟨_, ed, _, hdec⟩ := hd.expiry_ok hv
      simp [hv, hdec, Except.toOption]

theorem readDataEntry_of_dataId {k : DataKey} (hk : NulFree k.ns) {bs : Bytes}
    {v : CollectionPvtReadWriteSet} (hv : decodeDataValue x bs = .ok v) :
    readDataEntry x (dataId x k, bs) = .ok (k, v) := by
  unfold readDataEntry dataId
  simp only [hexDecode_hexEncode, decodeDatakey_encodeDataKey x hk, hv]

theorem readExpiryEntry_of_expiryId (ek : ExpiryKey) {bs : Bytes} {ed : ExpiryData}
    (hv : decodeExpiryValue x bs = .ok ed) :
    readExpiryEntry x (expiryId x ek, bs) = .ok (ek, ed) := by
  unfold readExpiryEntry expiryId
  simp only [hexDecode_hexEncode, decodeExpiryKey_encodeExpiryKey x ek, hv]

structure EntriesRead (x : Externals) (b : UInt64) (d : BlockPvtData)
    (des : List (DataKey × CollectionPvtReadWriteSet)) (ees : List (ExpiryKey × ExpiryData)) :
    Prop where
  data_ok : ∀ p ∈ des, p.1.blkNum = b ∧ NulFree p.1.ns ∧ p.2.collectionName = p.1.coll
  data_eq : ∀ k : DataKey, NulFree k.ns → GoMap.lastValue k des = PvtData.dataAt x d k
  expiry_ok : ∀ p ∈ ees, p.1.committingBlk = b
  expiry_eq : ∀ ek, GoMap.lastValue ek ees = PvtData.expiryAt x d ek

theorem entriesRead_of_collect {d : BlockPvtData} (hd : DocOk x b d)
    {des : List (DataKey × CollectionPvtReadWriteSet)} {ees : List (ExpiryKey × ExpiryData)}
    (hdes : collect (readDataEntry x) d.data.toList = .ok des)
    (hees : collect (readExpiryEntry x) d.expiry.toList = .ok ees) :
    EntriesRead x b d des ees := by
  -- every pair read comes from an encoded pair of the document
  have hread : ∀ {h bs : Bytes} {p : DataKey × CollectionPvtReadWriteSet},
      d.data.lookup h = some bs → readDataEntry x (h, bs) = .ok p →
      dataId x p.1 = h ∧ decodeDataValue x bs = .ok p.2 ∧ p.1.blkNum = b ∧ NulFree p.1.ns ∧
        p.2.collectionName = p.1.coll := by
    intro h bs p hl hp
    obtain ⟨k, v, hb, hnul, rfl, hv, hcoll⟩ := hd.data_ok hl
    rw [readDataEntry_of_dataId hnul hv] at hp
    obtain rfl := Except.ok.inj hp
    exact ⟨rfl, hv, hb, hnul, hcoll⟩
  have hreadExp : ∀ {h bs : Bytes} {p : ExpiryKey × ExpiryData},
      d.expiry.lookup h = some bs → readExpiryEntry x (h, bs) = .ok p →
      expiryId x p.1 = h ∧ decodeExpiryValue x bs = .ok p.2 ∧ p.1.committingBlk = b := by
    intro h bs p hl hp
    obtain ⟨e, ed, rfl, hv⟩ := hd.expiry_ok hl
    rw [readExpiryEntry_of_expiryId _ hv] at hp
    obtain rfl := Except.ok.inj hp
    exact ⟨rfl, hv, rfl⟩
  have hdata : ∀ p ∈ des, p.1.blkNum = b ∧ NulFree p.1.ns ∧ p.2.collectionName = p.1.coll := by
    intro p hp
    obtain ⟨⟨h, bs⟩, hmem, hpq⟩ := (mem_of_collect hdes p).mp hp
    exact (hread (GoMap.mem_toList.mp hmem) hpq).2.2
  refine ⟨hdata, fun k hk => ?_, fun p hp => ?_, fun ek => ?_⟩
  · refine lastValue_readAll hdes (fun hl hp => ?_) fun p hp heq => ?_
    · obtain ⟨hkey, hval, _⟩ := hread hl hp
      exact ⟨hkey, hval⟩
    · exact dataId_injective (hdata p hp).2.1 hk heq
  · obtain ⟨⟨h, bs⟩, hmem, hpq⟩ := (mem_of_collect hees p).mp hp
    exact (hreadExp (GoMap.mem_toList.mp hmem) hpq).2.2
  · refine lastValue_readAll hees (fun hl hp => ?_) fun p hp heq => ?_
    · obtain ⟨hkey, hval, _⟩ := hreadExp hl hp
      exact ⟨hkey, hval⟩
    · exact expiryId_injective heq

/-- What the store shows of block `b` is read back, with the revision of its document. -/
theorem retrieveBlockPvtEntries_ok {s : Store} (hdb : DbOk x s.db)
    {old : BlockPvtEntries} (h : retrieveBlockPvtEntries x s b = .ok old) :
    old.rev = s.db.currentRev (blockNumberToKey b) ∧
    (∀ p ∈ old.dataEntries, p.1.blkNum = b ∧ NulFree p.1.ns ∧
      p.2.collectionName = p.1.coll) ∧
    (∀ p ∈ old.expiryEntries, p.1.committingBlk = b) ∧
    (∀ k : DataKey, k.blkNum = b → NulFree k.ns →
      GoMap.lastValue k old.dataEntries = s.dataAt x k) ∧
    (∀ ek : ExpiryKey, ek.committingBlk = b →
      GoMap.lastValue ek old.expiryEntries = s.expiryAt x ek) := by
  unfold retrieveBlockPvtEntries at h
  rcases lookup_cases hdb b with hl | ⟨rev, d, hl, hd⟩
  · rw [retrieveBlockPvtData_of_none hl] at h
    obtain rfl := Except.ok.inj h
    refine ⟨by rw [DocStore.currentRev, hl]; rfl, by simp, by simp, ?_, ?_⟩
    · rintro k rfl _
      rw [Store.dataAt, blockDoc, hl]
      rfl
    · rintro ek rfl
      rw [Store.expiryAt, blockDoc, hl]
      rfl
  · rw [retrieveBlockPvtData_of_some hl] at h
    simp only at h
    split at h
    · cases h
    · rename_i des hdes
      split at h
      · cases h
      · rename_i ees hees
        obtain rfl := Except.ok.inj h
        have hread := entriesRead_of_collect hd hdes hees
        refine ⟨by rw [DocStore.currentRev, hl]; rfl, hread.data_ok, hread.expiry_ok, ?_, ?_⟩
        · rintro k rfl hk
          rw [hread.data_eq k hk, Store.dataAt, blockDoc_of_lookup hl]
          rfl
        · rintro ek rfl
          rw [hread.expiry_eq ek, Store.expiryAt, blockDoc_of_lookup hl]
          rfl

/-- The new document of block `b` shows the updates laid over the old one, and lists
every block at which something of it expires. -/
structure UpdatedDoc (x : Externals) (s : Store) (b : UInt64) (en : DataAndExpiryEntries)
    (d : BlockPvtData) : Prop where
  docOk : DocOk x b d
  dataAt_eq : ∀ k : DataKey, k.blkNum = b → NulFree k.ns →
    PvtData.dataAt x d k = (en.dataEntries.lookup k).or (s.dataAt x k)
  expiryAt_eq : ∀ ek : ExpiryKey, ek.committingBlk = b →
    PvtData.expiryAt x d ek = (en.expiryEntries.lookup ek).or (s.expiryAt x ek)
  listed : ∀ {e ed}, PvtData.expiryAt x d ⟨e, b⟩ = some ed →
    blockNumberToKey e ∈ d.expiringBlkNums

theorem map_toPair_dataEntries (l : List (DataKey × CollectionPvtReadWriteSet)) :
    (l.map fun p => (⟨p.1, p.2⟩ : DataEntry)).map DataEntry.toPair = l := by
  rw [List.map_map]
  exact List.map_id l

theorem map_toPair_expiryEntries (l : List (ExpiryKey × ExpiryData)) :
    (l.map fun p => (⟨p.1, p.2⟩ : ExpiryEntry)).map ExpiryEntry.toPair = l := by
  rw [List.map_map]
  exact List.map_id l

theorem preparePvtDataDoc_ok {s : Store} (hdb : DbOk x s.db)
    {en : DataAndExpiryEntries} {doc : CouchDoc} (h : preparePvtDataDoc x s b en = .ok doc)
    (hdata : ∀ k v, en.dataEntries.lookup k = some v → k.blkNum = b ∧ NulFree k.ns ∧
      v.collectionName = k.coll)
    (hexp : ∀ ek ed, en.expiryEntries.lookup ek = some ed → ek.committingBlk = b) :
    ∃ d, UpdatedDoc x s b en d ∧
      doc = ⟨blockNumberToKey b, s.db.currentRev (blockNumberToKey b), false,
        .blockPvtData d⟩ := by
  unfold preparePvtDataDoc at h
  split at h
  · cases h
  rename_i old hold
  obtain ⟨hrev, holdData, holdExp, hdataEq, hexpEq⟩ := retrieveBlockPvtEntries_ok hdb hold
  split at h
  · cases h
  · cases h
  rename_i doc' hcreate
  obtain rfl := Except.ok.inj h
  rcases createPvtDataCouchDoc_ok hcreate with ⟨_, _, hnone⟩ | ⟨_, d, hd, hdoc⟩
  · cases hnone
  have hdes : ∀ de ∈ (old.dataEntries ++ en.dataEntries.toList).map
      (fun p => (⟨p.1, p.2⟩ : DataEntry)),
      de.key.blkNum = b ∧ NulFree de.key.ns ∧ de.value.collectionName = de.key.coll := by
    intro de hde
    obtain ⟨p, hp, rfl⟩ := List.mem_map.mp hde
    rcases List.mem_append.mp hp with hp | hp
    · exact holdData p hp
    · exact hdata p.1 p.2 (GoMap.mem_toList.mp hp)
  have hees : ∀ ee ∈ (old.expiryEntries ++ en.expiryEntries.toList).map
      (fun p => (⟨p.1, p.2⟩ : ExpiryEntry)), ee.key.committingBlk = b := by
    intro ee hee
    obtain ⟨p, hp, rfl⟩ := List.mem_map.mp hee
    rcases List.mem_append.mp hp with hp | hp
    · exact holdExp p hp
    · exact hexp p.1 p.2 (GoMap.mem_toList.mp hp)
  refine ⟨d, ⟨hd.docOk hdes hees, fun k hkb hk => ?_, fun ek hek => ?_, fun {e ed} hl => ?_⟩, ?_⟩
  · rw [hd.dataAt_eq (fun de hde => (hdes de hde).2.1) k hk, map_toPair_dataEntries,
      GoMap.lastValue_append, GoMap.lastValue_toList, hdataEq k hkb hk]
  · rw [hd.expiryAt_eq ek, map_toPair_expiryEntries, GoMap.lastValue_append,
      GoMap.lastValue_toList, hexpEq ek hek]
  · -- the list has the expiring block of every entry, old and new
    rw [hd.expiryAt_eq] at hl
    obtain ⟨ee, hee, hpair⟩ := List.mem_map.mp (GoMap.mem_of_lastValue hl)
    rw [hd.nums]
    refine List.mem_map.mpr ⟨ee, hee, ?_⟩
    rw [show ee.key = ⟨e, b⟩ from (Prod.mk.inj hpair).1]
  · rw [Option.some.inj hdoc, hrev]

/-! ## The call as a whole -/

structure Reconciled (x : Externals) (btlPolicy : BtlPolicy) (s s' : Store)
    (blocksPvtData : GoMap UInt64 (List TxPvtData)) (unreconciled : MissingPvtDataInfo)
    (entries : EntriesForPvtDataOfOldBlocks) (docs : List CouchDoc) (batch : Batch) : Prop where
  notSet : s.isLastUpdatedOldBlocksSet = false
  entries_eq : oldBlockEntries x btlPolicy s blocksPvtData unreconciled = .ok entries
  construct : constructDBUpdateBatch x (preparePvtDataDoc x s) entries = .ok (docs, batch)
  eq : s' = { s with
    db := s.db.bulk docs
    missingKeysIndexDB := Batch.apply (batch ++ [.put lastUpdatedOldBlocksKey
      (encodeLastUpdatedOldBlocksList x blocksPvtData.keys)]) s.missingKeysIndexDB }

theorem commitPvtDataOfOldBlocks_cases {s s' : Store}
    {blocksPvtData : GoMap UInt64 (List TxPvtData)} {unreconciled : MissingPvtDataInfo}
    {r : Except Err Unit}
    (h : commitPvtDataOfOldBlocks x btlPolicy s blocksPvtData unreconciled = (s', r)) :
    ((∃ e, r = .error e) ∧ s' = s) ∨
    (r = .ok () ∧ ∃ entries docs batch,
      Reconciled x btlPolicy s s' blocksPvtData unreconciled entries docs batch) := by
  unfold commitPvtDataOfOldBlocks at h
  split at h
  · obtain ⟨rfl, rfl⟩ := Prod.mk.inj h
    exact .inl ⟨⟨_, rfl⟩, rfl⟩
  rename_i hset
  split at h
  · obtain ⟨rfl, rfl⟩ := Prod.mk.inj h
    exact .inl ⟨⟨_, rfl⟩, rfl⟩
  rename_i entries hentries
  split at h
  · obtain ⟨rfl, rfl⟩ := Prod.mk.inj h
    exact .inl ⟨⟨_, rfl⟩, rfl⟩
  rename_i docs batch hconstruct
  obtain ⟨rfl, rfl⟩ := Prod.mk.inj h
  exact .inr ⟨rfl, entries, docs, batch,
    Bool.eq_false_iff.mpr hset, hentries, hconstruct, rfl⟩

/-- The three loops behind the entries of a call. -/
theorem oldBlockEntries_ok {s : Store} {blocksPvtData : GoMap UInt64 (List TxPvtData)}
    {unreconciled : MissingPvtDataInfo} {entries : EntriesForPvtDataOfOldBlocks}
    (h : oldBlockEntries x btlPolicy s blocksPvtData unreconciled = .ok entries) :
    ∃ e1 e2,
      forEach (prepareDataAndExpiryEntry btlPolicy (getExpiryDataOfExpiryKey x s))
        newEntriesForPvtDataOfOldBlocks (dataEntriesOfBlocks blocksPvtData) = .ok e1 ∧
      forEach (reflectReconciledData x s.missingKeysIndexDB) e1 e1.dataEntries.keys = .ok e2 ∧
      forEach (reflectPriority x s.missingKeysIndexDB) e2 (missingElements unreconciled) =
        .ok entries := by
  unfold oldBlockEntries at h
  split at h
  · cases h
  rename_i e1 h1
  split at h
  · cases h
  rename_i e2 h2
  exact ⟨e1, e2, h1, h2, h⟩

/-- The loops over the bitmaps leave the data and expiry entries alone. -/
theorem oldBlockEntries_data {s : Store} {e1 e2 e3 : EntriesForPvtDataOfOldBlocks}
    {dks : List DataKey} {els : List (NsCollBlk × UInt64)}
    (h2 : forEach (reflectReconciledData x s.missingKeysIndexDB) e1 dks = .ok e2)
    (h3 : forEach (reflectPriority x s.missingKeysIndexDB) e2 els = .ok e3) :
    e3.dataEntries = e1.dataEntries ∧ e3.expiryEntries = e1.expiryEntries := by
  let same (a : EntriesForPvtDataOfOldBlocks) : Prop :=
    a.dataEntries = e1.dataEntries ∧ a.expiryEntries = e1.expiryEntries
  have hkeep2 : same e2 := by
    refine forEach_invariant (P := same) (fun a dk a' _ ha hstep => ?_) ⟨rfl, rfl⟩ h2
    obtain ⟨⟨hd, he⟩, _⟩ := reflectReconciledData_bits hstep
    exact ⟨hd.trans ha.1, he.trans ha.2⟩
  refine forEach_invariant (P := same) (fun a el a' _ ha hstep => ?_) hkeep2 h3
  obtain ⟨⟨hd, he⟩, _⟩ := reflectPriority_bits hstep
  exact ⟨hd.trans ha.1, he.trans ha.2⟩

theorem constructDBUpdateBatch_ok {prep : UInt64 → DataAndExpiryEntries → Except Err CouchDoc}
    {entries : EntriesForPvtDataOfOldBlocks} {docs : List CouchDoc} {batch : Batch}
    (h : constructDBUpdateBatch x prep entries = .ok (docs, batch)) :
    ∃ m prio deprio, ByBlock entries.dataEntries entries.expiryEntries m ∧
      collect (fun p => prep p.1 p.2) m.toList = .ok docs ∧
      addElgPrioMissingDataEntriesTo x entries = .ok prio ∧
      addElgDeprioMissingDataEntriesTo x entries = .ok deprio ∧ batch = prio ++ deprio := by
  unfold constructDBUpdateBatch at h
  split at h
  · cases h
  rename_i docs' hdocs
  rw [wrapErr_ok] at hdocs
  split at h
  · cases h
  rename_i prio hprio
  split at h
  · cases h
  rename_i deprio hdeprio
  obtain ⟨rfl, rfl⟩ := Prod.mk.inj (Except.ok.inj h)
  unfold addDataAndExpiryEntriesTo at hdocs
  split at hdocs
  · cases hdocs
  rename_i m hm
  exact ⟨m, prio, deprio, byBlock_ok hm, hdocs, wrapErr_ok.mp hprio, wrapErr_ok.mp hdeprio, rfl⟩

def NulFreeBlocks (blocksPvtData : GoMap UInt64 (List TxPvtData)) : Prop :=
  ∀ b pvtData, blocksPvtData.lookup b = some pvtData → NulFreeData pvtData

instance (blocksPvtData : GoMap UInt64 (List TxPvtData)) :
    Decidable (NulFreeBlocks blocksPvtData) :=
  decidable_of_iff (∀ p ∈ blocksPvtData.toList, NulFreeData p.2)
    ⟨fun h b pvtData hl => h (b, pvtData) (GoMap.mem_toList.mpr hl),
      fun h p hp => h p.1 p.2 (GoMap.mem_toList.mp hp)⟩

theorem mem_dataEntriesOfBlocks {blocksPvtData : GoMap UInt64 (List TxPvtData)}
    {de : DataEntry} :
    de ∈ dataEntriesOfBlocks blocksPvtData ↔
      ∃ b pvtData, blocksPvtData.lookup b = some pvtData ∧ de ∈ prepareDataEntries b pvtData := by
  simp only [dataEntriesOfBlocks, List.mem_flatMap, Prod.exists, GoMap.mem_toList]

theorem NulFreeBlocks.key {blocksPvtData : GoMap UInt64 (List TxPvtData)}
    (h : NulFreeBlocks blocksPvtData) {de : DataEntry}
    (hde : de ∈ dataEntriesOfBlocks blocksPvtData) : NulFree de.key.ns := by
  obtain ⟨b, pvtData, hl, hmem⟩ := mem_dataEntriesOfBlocks.mp hde
  exact (h b pvtData hl).key hmem

def Updates (entries : EntriesForPvtDataOfOldBlocks) (b : UInt64) : Prop :=
  ∃ k v, k.blkNum = b ∧ entries.dataEntries.lookup k = some v

section
variable {s s' : Store} {blocksPvtData : GoMap UInt64 (List TxPvtData)}
  {unreconciled : MissingPvtDataInfo} {entries : EntriesForPvtDataOfOldBlocks}
  {docs : List CouchDoc} {batch : Batch}
  (h : Reconciled x btlPolicy s s' blocksPvtData unreconciled entries docs batch)
include h

/-- Exactly the accepted entries are stored. -/
theorem Reconciled.dataSpec :
    DataSpec btlPolicy (getExpiryDataOfExpiryKey x s) (dataEntriesOfBlocks blocksPvtData)
      entries.dataEntries := by
  obtain ⟨e1, e2, h1, h2, h3⟩ := oldBlockEntries_ok h.entries_eq
  rw [(oldBlockEntries_data h2 h3).1]
  exact dataSpec_of_forEach h1

/-- Each expiry entry is the stored one with one of the accepted entries added. -/
theorem Reconciled.expirySpec :
    ExpirySpec btlPolicy (getExpiryDataOfExpiryKey x s) (dataEntriesOfBlocks blocksPvtData)
      entries.expiryEntries := by
  obtain ⟨e1, e2, h1, h2, h3⟩ := oldBlockEntries_ok h.entries_eq
  rw [(oldBlockEntries_data h2 h3).2]
  exact expirySpec_of_forEach h1

/-- A key that is stored is one of the call's, with its write set. -/
theorem Reconciled.data_mem {k : DataKey} {v : CollectionPvtReadWriteSet}
    (hl : entries.dataEntries.lookup k = some v) :
    (⟨k, v⟩ : DataEntry) ∈ dataEntriesOfBlocks blocksPvtData := by
  obtain ⟨de, hde, _, rfl, rfl⟩ := h.dataSpec.mem hl
  exact hde

/-- The documents of the call: for each block with stored entries, the old document
with the entries laid over it. -/
theorem Reconciled.docs_spec (hdb : DbOk x s.db) (hnul : NulFreeBlocks blocksPvtData) :
    (docs.map Doc.id).Nodup ∧
    (∀ doc ∈ docs, ∃ b d, UpdatedDoc x s b ⟨entries.dataEntries, entries.expiryEntries⟩ d ∧
      doc = ⟨blockNumberToKey b, s.db.currentRev (blockNumberToKey b), false,
        .blockPvtData d⟩) ∧
    (∀ b, blockNumberToKey b ∈ docs.map Doc.id ↔
      ∃ k v, k.blkNum = b ∧ entries.dataEntries.lookup k = some v) ∧
    (∀ ek ed, entries.expiryEntries.lookup ek = some ed →
      blockNumberToKey ek.committingBlk ∈ docs.map Doc.id) := by
  obtain ⟨m, _, _, hm, hdocs, _, _, _⟩ := constructDBUpdateBatch_ok h.construct
  have hdoc : ∀ p ∈ m.toList, ∀ doc, preparePvtDataDoc x s p.1 p.2 = .ok doc →
      ∃ d, UpdatedDoc x s p.1 ⟨entries.dataEntries, entries.expiryEntries⟩ d ∧
        doc = ⟨blockNumberToKey p.1, s.db.currentRev (blockNumberToKey p.1), false,
          .blockPvtData d⟩ := by
    rintro ⟨b, en⟩ hp doc hprep
    have hen := entriesOf_of_lookup (GoMap.mem_toList.mp hp)
    have hdataEn : ∀ k, en.dataEntries.lookup k =
        if k.blkNum = b then entries.dataEntries.lookup k else none := hen ▸ hm.data b
    have hexpEn : ∀ ek, en.expiryEntries.lookup ek =
        if ek.committingBlk = b then entries.expiryEntries.lookup ek else none :=
      hen ▸ hm.expiry b
    obtain ⟨d, hd, rfl⟩ := preparePvtDataDoc_ok hdb hprep
      (by
        intro k v hl
        rw [hdataEn] at hl
        split at hl
        · rename_i hk
          have hmem := h.data_mem hl
          obtain ⟨_, _, _, hmem'⟩ := mem_dataEntriesOfBlocks.mp hmem
          exact ⟨hk, hnul.key hmem, collectionName_of_mem_prepareDataEntries hmem'⟩
        · cases hl)
      (by
        intro ek ed hl
        rw [hexpEn] at hl
        split at hl
        · assumption
        · cases hl)
    refine ⟨d, ⟨hd.docOk, fun k hkb hk => ?_, fun ek hek => ?_, hd.listed⟩, rfl⟩
    · rw [hd.dataAt_eq k hkb hk, hdataEn, if_pos hkb]
    · rw [hd.expiryAt_eq ek hek, hexpEn, if_pos hek]
  have hids : docs.map Doc.id = m.toList.map fun p => blockNumberToKey p.1 :=
    map_collect hdocs fun p hp doc hprep => by
      obtain ⟨_, _, rfl⟩ := hdoc p hp doc hprep
      rfl
  have hmem : ∀ b, blockNumberToKey b ∈ docs.map Doc.id ↔ ∃ en, m.lookup b = some en := by
    intro b
    rw [hids]
    simp only [List.mem_map, Prod.exists, GoMap.mem_toList]
    constructor
    · rintro ⟨b', en, hl, heq⟩
      rw [← blockNumberToKey_injective heq]
      exact ⟨en, hl⟩
    · rintro ⟨en, hl⟩
      exact ⟨b, en, hl, rfl⟩
  refine ⟨?_, ?_, fun b => (hmem b).trans (hm.mem_iff b), fun ek ed hl => ?_⟩
  · rw [hids, show (fun p : UInt64 × DataAndExpiryEntries => blockNumberToKey p.1) =
      blockNumberToKey ∘ Prod.fst from rfl, ← List.map_map]
    exact (GoMap.nodup_toList m).map fun _ _ => blockNumberToKey_injective
  · intro doc hmemdoc
    obtain ⟨p, hp, hprep⟩ := (mem_of_collect hdocs doc).mp hmemdoc
    obtain ⟨d, hd, rfl⟩ := hdoc p hp doc hprep
    exact ⟨p.1, d, hd, rfl⟩
  · rw [hmem]
    have hexp := hm.expiry ek.committingBlk ek
    rw [if_pos rfl, hl, entriesOf] at hexp
    cases hb : m.lookup ek.committingBlk with
    | none => rw [hb] at hexp; cases hexp
    | some en => exact ⟨en, rfl⟩

/-! ## CouchDB after a reconciliation -/

section
variable (hdb : DbOk x s.db) (hnul : NulFreeBlocks blocksPvtData)
include hdb hnul

/-- The document of a block that gets new data is replaced by the updated one. -/
theorem Reconciled.lookup_updated {b : UInt64} (hb : Updates entries b) :
    ∃ rev d, UpdatedDoc x s b ⟨entries.dataEntries, entries.expiryEntries⟩ d ∧
      s'.db.lookup (blockNumberToKey b) = some ⟨rev, .blockPvtData d⟩ := by
  obtain ⟨hids, hdocs, hmem, _⟩ := h.docs_spec hdb hnul
  obtain ⟨doc, hdoc, hid⟩ := List.mem_map.mp ((hmem b).mpr hb)
  obtain ⟨b', d, hd, rfl⟩ := hdocs doc hdoc
  obtain rfl := blockNumberToKey_injective hid
  refine ⟨(s.db.currentRev (blockNumberToKey b')).getD 0 + 1, d, hd, ?_⟩
  rw [h.eq]
  exact (DocStore.lookup_bulk hids hdoc s.db).trans (DocStore.lookup_put_of_rev rfl)

/-- Every other document stays. -/
theorem Reconciled.lookup_other
    {id : GoString} (hid : ∀ b, Updates entries b → id ≠ blockNumberToKey b) :
    s'.db.lookup id = s.db.lookup id := by
  obtain ⟨_, hdocs, hmem, _⟩ := h.docs_spec hdb hnul
  rw [h.eq]
  refine DocStore.lookup_bulk_of_notMem fun hin => ?_
  obtain ⟨doc, hdoc, rfl⟩ := List.mem_map.mp hin
  obtain ⟨b, d, _, rfl⟩ := hdocs doc hdoc
  exact hid b ((hmem b).mp hin) rfl

theorem Reconciled.blockDoc_other
    {b : UInt64} (hb : ¬ Updates entries b) : blockDoc s'.db b = blockDoc s.db b :=
  blockDoc_congr (h.lookup_other hdb hnul fun _ hb' he =>
    hb (blockNumberToKey_injective he ▸ hb'))

theorem Reconciled.dbOk :
    DbOk x s'.db := by
  obtain ⟨_, hdocs, _, _⟩ := h.docs_spec hdb hnul
  rw [h.eq]
  refine DbOk.bulk (fun doc hdoc => ?_) hdb
  obtain ⟨b, d, hd, rfl⟩ := hdocs doc hdoc
  exact .inr ⟨b, d, rfl, rfl, hd.docOk⟩

/-- The data after a reconciliation: the entries of the call, else the old data. -/
theorem Reconciled.dataAt_eq {k : DataKey} (hk : NulFree k.ns) :
    s'.dataAt x k = (entries.dataEntries.lookup k).or (s.dataAt x k) := by
  by_cases hb : Updates entries k.blkNum
  · obtain ⟨rev, d, hd, hl⟩ := h.lookup_updated hdb hnul hb
    rw [Store.dataAt, blockDoc_of_lookup hl, Option.bind_some, hd.dataAt_eq k rfl hk]
  · have hnone : entries.dataEntries.lookup k = none :=
      Option.eq_none_iff_forall_ne_some.mpr fun v hl => hb ⟨k, v, rfl, hl⟩
    rw [hnone, Option.none_or, Store.dataAt, Store.dataAt, h.blockDoc_other hdb hnul hb]

/-- The expiry entries after a reconciliation: those of the call, else the old ones. -/
theorem Reconciled.expiryAt_eq (ek : ExpiryKey) :
    s'.expiryAt x ek = (entries.expiryEntries.lookup ek).or (s.expiryAt x ek) := by
  by_cases hb : Updates entries ek.committingBlk
  · obtain ⟨rev, d, hd, hl⟩ := h.lookup_updated hdb hnul hb
    rw [Store.expiryAt, blockDoc_of_lookup hl, Option.bind_some, hd.expiryAt_eq ek rfl]
  · obtain ⟨_, _, hmem, hexp⟩ := h.docs_spec hdb hnul
    have hnone : entries.expiryEntries.lookup ek = none :=
      Option.eq_none_iff_forall_ne_some.mpr fun ed hl => hb ((hmem _).mp (hexp ek ed hl))
    rw [hnone, Option.none_or, Store.expiryAt, Store.expiryAt, h.blockDoc_other hdb hnul hb]

end

end

/-! ## The index after a reconciliation -/

/-- What is stored of a bitmap: an empty one is not. -/
def settle (o : Option BitSet) : Option BitSet := o.filter fun b => !b.none

theorem settle_ne_none {o : Option BitSet} (h : settle o ≠ none) :
    ∃ b, o = some b ∧ b.none = false := by
  cases o with
  | none => exact absurd rfl h
  | some b =>
    refine ⟨b, rfl, ?_⟩
    cases hb : b.none with
    | false => rfl
    | true => exact absurd (by simp [settle, Option.filter, hb]) h

variable {encodeKey : MissingDataKey → Bytes}

theorem missingDataWrite_ok {p : NsCollBlk × BitSet}
    {op : BatchOp} (h : missingDataWrite x encodeKey p = .ok op) :
    op.key = encodeKey p.1 ∧
      ((p.2.none = true ∧ op.result = none) ∨
        (p.2.none = false ∧ ∃ bs, op.result = some bs ∧
          decodeMissingDataValue x bs = .ok p.2)) := by
  unfold missingDataWrite at h
  split at h
  · rename_i hnone
    obtain rfl := Except.ok.inj h
    exact ⟨rfl, .inl ⟨hnone, rfl⟩⟩
  · rename_i hnone
    split at h
    · cases h
    · rename_i bs hbs
      obtain rfl := Except.ok.inj h
      exact ⟨rfl, .inr ⟨Bool.eq_false_iff.mpr hnone, bs, rfl,
        decodeMissingDataValue_encodeMissingDataValue hbs⟩⟩

section
variable {m : GoMap NsCollBlk BitSet} {ops : Batch}
  (hops : collect (missingDataWrite x encodeKey) m.toList = .ok ops)
include hops

/-- A group after the writes of a call: the bitmaps of the call are settled, the others
stay. -/
theorem view_missingDataWrites {k : MissingDataKey}
    (hinj : ∀ {k' b}, m.lookup k' = some b → encodeKey k' = encodeKey k → k' = k) (kv : Kv) :
    view encodeKey (decodeMissingDataValue x) (ops.apply kv) k =
      match m.lookup k with
      | some b => settle (some b)
      | none => view encodeKey (decodeMissingDataValue x) kv k := by
  have hfrom : ∀ op ∈ ops, ∃ k' b, m.lookup k' = some b ∧
      missingDataWrite x encodeKey (k', b) = .ok op := by
    intro op hop
    obtain ⟨⟨k', b⟩, hmem, hw⟩ := (mem_of_collect hops op).mp hop
    exact ⟨k', b, GoMap.mem_toList.mp hmem, hw⟩
  cases hk : m.lookup k with
  | none =>
    refine view_congr (Batch.lookup_apply_of_notMem (fun op hop heq => ?_) kv)
    obtain ⟨k', b, hl, hw⟩ := hfrom op hop
    rw [(missingDataWrite_ok hw).1] at heq
    rw [hinj hl heq, hk] at hl
    cases hl
  | some b =>
    obtain ⟨op, hop⟩ := collect_ok_of_mem hops (GoMap.mem_toList.mpr hk)
    have hmem : op ∈ ops := (mem_of_collect hops op).mpr ⟨_, GoMap.mem_toList.mpr hk, hop⟩
    obtain ⟨hkey, hres⟩ := missingDataWrite_ok hop
    have hlast : Batch.lastWrite (encodeKey k) ops = some op.result := by
      refine Batch.lastWrite_of_mem hmem hkey fun op' hop' hkey' => ?_
      obtain ⟨k', b', hl, hw⟩ := hfrom op' hop'
      rw [(missingDataWrite_ok hw).1] at hkey'
      obtain rfl := hinj hl hkey'
      rw [hk] at hl
      obtain rfl := Option.some.inj hl
      rw [hop] at hw
      rw [Except.ok.inj hw]
    rw [view, Batch.lookup_apply, hlast, Option.getD_some]
    rcases hres with ⟨hnone, hres⟩ | ⟨hnone, bs, hres, hdec⟩
    · simp [hres, settle, Option.filter, hnone]
    · simp [hres, settle, Option.filter, hnone, hdec, Except.toOption]

theorem key_of_missingDataWrites :
    ∀ op ∈ ops, ∃ k, op.key = encodeKey k := by
  intro op hop
  obtain ⟨p, _, hw⟩ := (mem_of_collect hops op).mp hop
  exact ⟨p.1, (missingDataWrite_ok hw).1⟩

end

section
variable {s s' : Store} {blocksPvtData : GoMap UInt64 (List TxPvtData)}
  {unreconciled : MissingPvtDataInfo} {entries : EntriesForPvtDataOfOldBlocks}
  {docs : List CouchDoc} {batch : Batch}
  (h : Reconciled x btlPolicy s s' blocksPvtData unreconciled entries docs batch)
include h

/-- The index of the call: the writes to the prioritised group, those to the
deprioritised one, the list of updated blocks. -/
theorem Reconciled.index_eq : ∃ prio deprio : Batch,
    addElgPrioMissingDataEntriesTo x entries = .ok prio ∧
    addElgDeprioMissingDataEntriesTo x entries = .ok deprio ∧
    s'.missingKeysIndexDB = (deprio.apply (prio.apply s.missingKeysIndexDB)).insert
      lastUpdatedOldBlocksKey (encodeLastUpdatedOldBlocksList x blocksPvtData.keys) := by
  obtain ⟨_, prio, deprio, _, _, hprio, hdeprio, rfl⟩ := constructDBUpdateBatch_ok h.construct
  refine ⟨prio, deprio, hprio, hdeprio, ?_⟩
  rw [h.eq]
  simp only [Batch.apply_append]
  rfl

theorem Reconciled.lookup_lastUpdated :
    s'.missingKeysIndexDB.lookup lastUpdatedOldBlocksKey =
      some (encodeLastUpdatedOldBlocksList x blocksPvtData.keys) := by
  obtain ⟨_, _, _, _, heq⟩ := h.index_eq
  rw [heq, AList.lookup_insert]

/-- An index key outside the two eligible groups and the list keeps its value. -/
theorem Reconciled.lookup_index {key : Bytes} (hne : key ≠ lastUpdatedOldBlocksKey)
    (hprio : ∀ k, key ≠ encodeElgPrioMissingDataKey x k)
    (hdeprio : ∀ k, key ≠ encodeElgDeprioMissingDataKey x k) :
    s'.missingKeysIndexDB.lookup key = s.missingKeysIndexDB.lookup key := by
  obtain ⟨prio, deprio, hp, hd, heq⟩ := h.index_eq
  rw [heq, GoMap.lookup_insert_eq, if_neg hne, Batch.lookup_apply_of_notMem,
    Batch.lookup_apply_of_notMem]
  · intro op hop hk
    obtain ⟨k, hk'⟩ := key_of_missingDataWrites hp op hop
    exact hprio k (hk.symm.trans hk')
  · intro op hop hk
    obtain ⟨k, hk'⟩ := key_of_missingDataWrites hd op hop
    exact hdeprio k (hk.symm.trans hk')

/-- The prioritised bitmaps after a reconciliation. -/
theorem Reconciled.prioAt_eq {k : MissingDataKey} (hk : NulFree k.ns)
    (hnul : ∀ {k' b}, entries.prioritizedMissingDataEntries.lookup k' = some b →
      NulFree k'.ns) :
    prioAt x s'.missingKeysIndexDB k =
      match entries.prioritizedMissingDataEntries.lookup k with
      | some b => settle (some b)
      | none => prioAt x s.missingKeysIndexDB k := by
  obtain ⟨prio, deprio, hp, hd, heq⟩ := h.index_eq
  refine Eq.trans (view_congr ?_) (view_missingDataWrites hp (fun {k' _} hl he => ?_) _)
  · rw [heq, GoMap.lookup_insert_eq, if_neg (notMissingKey_lastUpdated.ne_prio x k).symm,
      Batch.lookup_apply_of_notMem]
    intro op hop hkey
    obtain ⟨k', hk'⟩ := key_of_missingDataWrites hd op hop
    exact prio_ne_deprio x k k' (hkey.symm.trans hk')
  · exact (encodeElgMissingDataKey_injective x (hnul hl) hk he).2

/-- The deprioritised bitmaps after a reconciliation. -/
theorem Reconciled.deprioAt_eq {k : MissingDataKey} (hk : NulFree k.ns)
    (hnul : ∀ {k' b}, entries.deprioritizedMissingDataEntries.lookup k' = some b →
      NulFree k'.ns) :
    deprioAt x s'.missingKeysIndexDB k =
      match entries.deprioritizedMissingDataEntries.lookup k with
      | some b => settle (some b)
      | none => deprioAt x s.missingKeysIndexDB k := by
  obtain ⟨prio, deprio, hp, hd, heq⟩ := h.index_eq
  have hother : deprioAt x (prio.apply s.missingKeysIndexDB) k =
      deprioAt x s.missingKeysIndexDB k := by
    refine view_congr (Batch.lookup_apply_of_notMem (fun op hop hkey => ?_) _)
    obtain ⟨k', hk'⟩ := key_of_missingDataWrites hp op hop
    exact prio_ne_deprio x k' k (hk'.symm.trans hkey)
  rw [← hother]
  refine Eq.trans (view_congr ?_) (view_missingDataWrites hd (fun {k' _} hl he => ?_) _)
  · rw [heq, GoMap.lookup_insert_eq, if_neg (notMissingKey_lastUpdated.ne_deprio x k).symm]
  · exact (encodeElgMissingDataKey_injective x (hnul hl) hk he).2

end

end

end Store

end FabricPeerExt.PvtData
