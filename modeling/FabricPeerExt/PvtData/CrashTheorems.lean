/-
FabricPeerExt.PvtData.CrashTheorems — a commit that is cut short (`commit_atomic_iff`).

The number of the block reaches CouchDB before the missing-data entries reach LevelDB, so a block
with missing data is not safe at the last write.
-/
import FabricPeerExt.PvtData.Instance
import FabricPeerExt.PvtData.Sound

namespace FabricPeerExt.PvtData

open Lib

/-! ## §1 What gets written -/

/-- The block has something to store, so that there is a marker to put. -/
def stores (n : UInt64) (pvtData : List TxPvtData) (missing : TxMissingPvtDataMap) : Bool :=
  !(prepareDataEntries n pvtData).isEmpty || !(missingReports missing).isEmpty

def HasDocument (btlPolicy : BtlPolicy) (n : UInt64) (pvtData : List TxPvtData)
    (missing : TxMissingPvtDataMap) : Prop :=
  prepareDataEntries n pvtData ≠ [] ∨
    ∃ r ∈ missingReports missing, ∃ e, ExpiresAt btlPolicy (reportKey n r) e

namespace CommitFault

def written (stores : Bool) : CommitFault → GoString → Bool
  | .pendingPut _, _ => !stores
  | .bulkRequest applied _, id => applied id
  | .bulkDocuments applied, id => applied id
  | .writeBatch _, _ => true

def indexed (stores : Bool) : CommitFault → Bool
  | .pendingPut _ => !stores
  | .bulkRequest _ _ => false
  | .bulkDocuments _ => true
  | .writeBatch _ => false

end CommitFault

namespace Store

section
variable {x : Externals} {btlPolicy : BtlPolicy} {conf : Conf}

/-- What a commit of block `n` did to the databases: the documents with `w id` were
sent, and the batch was written if `b`. -/
structure Effect (s s' : Store) (n : UInt64) (doc : Option CouchDoc)
    (pending : PendingPvtData) (w : GoString → Bool) (b : Bool) : Prop where
  db : s'.db = s.db.bulk ((doc.toList ++ [createLastCommittedBlockDoc n
    (s.db.currentRev lastCommittedBlockID)]).filter fun d => w d.id)
  index : ∃ kv, SameIndex s.missingKeysIndexDB kv ∧
    s'.missingKeysIndexDB = if b then (missingKeysBatch pending).apply kv else kv

/-- `Commit` has nothing to object to the block and gets as far as its writes. -/
structure Prepared (x : Externals) (btlPolicy : BtlPolicy) (conf : Conf) (s : Store)
    (n : UInt64) (pvtData : List TxPvtData) (missing : TxMissingPvtDataMap) : Prop where
  committer : conf.committer = true
  next : s.nextBlockNum = n
  entries : ∃ se doc pending bytes, prepareStoreEntries btlPolicy n pvtData missing = .ok se ∧
    createPvtDataCouchDoc x se.dataEntries se.expiryEntries n none = .ok doc ∧
    pendingOf x doc se = .ok pending ∧ x.pendingPvtData pending = .ok bytes

section
variable {n : UInt64} {pvtData : List TxPvtData} {missing : TxMissingPvtDataMap}
  {se : StoreEntries} (hse : EntriesOf btlPolicy n pvtData missing se)
include hse

/-- A key is in one of the two maps exactly when something is reported for it. -/
theorem mem_missingEntries_iff {k : MissingDataKey} :
    k ∈ se.elgMissingDataEntries ∨ k ∈ se.inelgMissingDataEntries ↔
      ∃ r ∈ missingReports missing, k = reportKey n r := by
  rw [hse.elg, hse.inelg, prepareMissingDataEntries_eq]
  constructor
  · rintro (hk | hk)
    · obtain ⟨r, hr, _, rfl⟩ := mem_missingEntriesOf k hk
      exact ⟨r, hr, rfl⟩
    · obtain ⟨r, hr, _, rfl⟩ := mem_missingEntriesOf k hk
      exact ⟨r, hr, rfl⟩
  · rintro ⟨r, hr, rfl⟩
    have hmem : reportKey n r ∈ missingEntriesOf n r.2.isEligible (missingReports missing) ∅ :=
      reportKey_mem_missingEntriesOf hr
    cases helg : r.2.isEligible with
    | true => exact .inl (helg ▸ hmem)
    | false => exact .inr (helg ▸ hmem)

theorem missingEntries_nil :
    (se.elgMissingDataEntries.toList = [] ∧ se.inelgMissingDataEntries.toList = []) ↔
      missingReports missing = [] := by
  simp only [GoMap.toList_eq_nil, AList.lookup_eq_none, ← forall_and, ← not_or,
    mem_missingEntries_iff hse]
  constructor
  · intro hno
    exact List.eq_nil_iff_forall_not_mem.mpr fun r hr => hno _ ⟨r, hr, rfl⟩
  · rintro hnil k ⟨r, hr, _⟩
    rw [hnil] at hr
    cases hr

theorem hasDocument_iff :
    HasDocument btlPolicy n pvtData missing ↔ se.dataEntries ≠ [] ∨ se.expiryEntries ≠ [] := by
  rw [HasDocument, ← hse.dataEntries]
  constructor
  · rintro (hdata | ⟨r, hr, e, hexp⟩)
    · exact .inl hdata
    · obtain ⟨ee, hee, _⟩ := (hse.missing_iff e _ _).mpr
        ⟨_, (mem_missingEntries_iff hse).mpr ⟨r, hr, rfl⟩, hexp, rfl, rfl⟩
      exact .inr (List.ne_nil_of_mem hee)
  · rintro (hdata | hees)
    · exact .inl hdata
    · obtain ⟨ee, hee⟩ := List.exists_mem_of_ne_nil _ hees
      rcases hse.lists ee hee with ⟨ns, coll, txNum, hp⟩ | ⟨ns, coll, hm⟩
      · obtain ⟨de, hde, _⟩ := (hse.present_iff _ ns coll txNum).mp ⟨ee, hee, rfl, hp⟩
        exact .inl (List.ne_nil_of_mem hde)
      · obtain ⟨k, hk, hexp, _⟩ := (hse.missing_iff _ ns coll).mp ⟨ee, hee, rfl, hm⟩
        obtain ⟨r, hr, rfl⟩ := (mem_missingEntries_iff hse).mp hk
        exact .inr ⟨r, hr, _, hexp⟩

/-- The test of `prepareMissingKeys` for something to store. -/
theorem stores_eq {doc : Option CouchDoc}
    (hdoc : createPvtDataCouchDoc x se.dataEntries se.expiryEntries n none = .ok doc) :
    (doc.isSome || !se.elgMissingDataEntries.toList.isEmpty ||
      !se.inelgMissingDataEntries.toList.isEmpty) = stores n pvtData missing := by
  have hsome : doc.isSome = true ↔ HasDocument btlPolicy n pvtData missing := by
    rw [hasDocument_iff hse]
    rcases createPvtDataCouchDoc_ok hdoc with ⟨hdes, hees, rfl⟩ | ⟨hne, d, _, rfl⟩
    · simp [hdes, hees]
    · simpa using hne
  rw [Bool.eq_iff_iff, stores]
  simp only [Bool.or_eq_true, hsome, Bool.not_eq_true', List.isEmpty_eq_false_iff, or_assoc]
  have hmiss := not_congr (missingEntries_nil hse)
  rw [not_and_or] at hmiss
  rw [← ne_eq, ← ne_eq, ← ne_eq] at hmiss
  rw [hmiss]
  constructor
  · rintro ((hdata | ⟨r, hr, _⟩) | hrep)
    · exact .inl hdata
    · exact .inr (List.ne_nil_of_mem hr)
    · exact .inr hrep
  · rintro (hdata | hrep)
    · exact .inl (.inl hdata)
    · exact .inr hrep

end

section
variable {n : UInt64} {pvtData : List TxPvtData} {missing : TxMissingPvtDataMap}
  (fault : CommitFault)
include fault

/-- The put of the marker fails exactly when there is a marker and the fault is there. -/
theorem prepareMissingKeys_fault (kv : Kv) {se : StoreEntries}
    {doc : Option CouchDoc} {pending : PendingPvtData} {bytes : Bytes}
    (hse : EntriesOf btlPolicy n pvtData missing se)
    (hdoc : createPvtDataCouchDoc x se.dataEntries se.expiryEntries n none = .ok doc)
    (hpend : pendingOf x doc se = .ok pending) (hbytes : x.pendingPvtData pending = .ok bytes) :
    ((∃ cause, fault = .pendingPut cause) ∧ stores n pvtData missing = true ∧
      ∃ e, prepareMissingKeys x (some fault) kv doc se = .error e) ∨
    (¬ ((∃ cause, fault = .pendingPut cause) ∧ stores n pvtData missing = true) ∧
      ∃ kv' pending', prepareMissingKeys x (some fault) kv doc se = .ok (kv', pending')) := by
  rw [← stores_eq hse hdoc]
  unfold prepareMissingKeys
  split
  · rename_i hst
    simp only [hpend, hbytes]
    split
    · rename_i cause hf
      exact .inl ⟨⟨cause, Option.some.inj hf⟩, hst, _, rfl⟩
    · rename_i hf
      refine .inr ⟨?_, _, _, rfl⟩
      rintro ⟨⟨cause, rfl⟩, _⟩
      exact hf cause rfl
  · rename_i hst
    exact .inr ⟨fun h => hst h.2, _, _, rfl⟩

/-- A commit under a fault: what it has written, unless the number of the last block
cannot be read, in which case it has written nothing. -/
theorem effect_of_fault {s : Store} (h : Prepared x btlPolicy conf s n pvtData missing) :
    (∃ se doc pending, EntriesOf btlPolicy n pvtData missing se ∧
      createPvtDataCouchDoc x se.dataEntries se.expiryEntries n none = .ok doc ∧
      PendingFor x doc se pending ∧
      Effect s (commitWith x btlPolicy conf (some fault) s n pvtData missing).1 n doc pending
        (fault.written (stores n pvtData missing)) (fault.indexed (stores n pvtData missing))) ∨
    ((∃ e, lookupLastBlock s.db = .error e) ∧
      (commitWith x btlPolicy conf (some fault) s n pvtData missing).1.db = s.db) := by
  obtain ⟨se, doc, pending, bytes, hentries, hdoc, hpend, hbytes⟩ := h.entries
  have hse := prepareStoreEntries_ok hentries
  have hfor := pendingOf_ok hpend
  rw [commitWith, if_neg (by rw [h.committer]; decide)]
  simp only [if_neg (not_not.mpr h.next), hentries, hdoc]
  rcases prepareMissingKeys_fault fault s.missingKeysIndexDB hse hdoc hpend hbytes with
    ⟨⟨cause, rfl⟩, hst, e, herr⟩ | ⟨hno, kv, pending', hok⟩
  · -- the marker could not be put: nothing is written
    refine .inl ⟨se, doc, pending, hse, hdoc, hfor, ?_, s.missingKeysIndexDB, SameIndex.refl _, ?_⟩
    · simp [herr, CommitFault.written, hst, DocStore.bulk]
    · simp [herr, CommitFault.indexed, hst]
  · obtain ⟨hfor', hsame⟩ := prepareMissingKeys_ok hok
    simp only [hok, prepareLastCommittedBlockDoc]
    cases hlast : lookupLastBlock s.db with
    | error e => exact .inr ⟨⟨e, rfl⟩, rfl⟩
    | ok p =>
      obtain ⟨last, rev⟩ := p
      obtain rfl := lookupLastBlock_rev hlast
      refine .inl ⟨se, doc, pending', hse, hdoc, hfor', ?_⟩
      cases fault with
      | pendingPut cause =>
        have hst : stores n pvtData missing = false :=
          Bool.eq_false_iff.mpr fun hst => hno ⟨⟨cause, rfl⟩, hst⟩
        refine ⟨?_, kv, hsame, ?_⟩
        · simp [commitPending, batchUpdateDocuments, updateMissingKeys,
            updateLastCommittedBlockNum, CommitFault.written, hst, hfor'.pvtDataDoc]
        · simp [commitPending, batchUpdateDocuments, updateMissingKeys,
            updateLastCommittedBlockNum, CommitFault.indexed, hst]
      | bulkRequest applied cause =>
        refine ⟨?_, kv, hsame, rfl⟩
        simp [commitPending, batchUpdateDocuments, CommitFault.written, hfor'.pvtDataDoc]
      | bulkDocuments applied =>
        refine ⟨?_, kv, hsame, rfl⟩
        simp [commitPending, batchUpdateDocuments, updateMissingKeys,
          updateLastCommittedBlockNum, CommitFault.written, hfor'.pvtDataDoc]
      | writeBatch cause =>
        refine ⟨?_, kv, hsame, rfl⟩
        simp [commitPending, batchUpdateDocuments, updateMissingKeys, CommitFault.written,
          hfor'.pvtDataDoc]

end

/-! ### Reading the effect -/

section
variable {s s' : Store} {n : UInt64} {des : List DataEntry} {ees : List ExpiryEntry}
  {doc : Option CouchDoc} {pending : PendingPvtData} {w : GoString → Bool} {b : Bool}

theorem nodup_sentIds (hdoc : createPvtDataCouchDoc x des ees n none = .ok doc)
    (rev : Option Nat) : (((doc.toList ++ [createLastCommittedBlockDoc n rev]).filter
      fun d => w d.id).map Doc.id).Nodup :=
  (nodup_docIds hdoc rev).sublist (List.filter_sublist.map _)

variable (h : Effect s s' n doc pending w b)
  (hdoc : createPvtDataCouchDoc x des ees n none = .ok doc)
include h hdoc

theorem Effect.lookup_last (hw : w lastCommittedBlockID = true) :
    s'.db.lookup lastCommittedBlockID =
      some ⟨(s.db.currentRev lastCommittedBlockID).getD 0 + 1,
        .lastCommittedBlock (formatUint n)⟩ := by
  have hmem : createLastCommittedBlockDoc n (s.db.currentRev lastCommittedBlockID) ∈
      (doc.toList ++ [createLastCommittedBlockDoc n
        (s.db.currentRev lastCommittedBlockID)]).filter fun d => w d.id :=
    List.mem_filter.mpr ⟨List.mem_append_right _ (List.mem_singleton_self _), hw⟩
  have hbulk := DocStore.lookup_bulk (nodup_sentIds hdoc _) hmem s.db
  rw [DocStore.lookup_put_of_rev rfl] at hbulk
  rw [h.db]
  exact hbulk

/-- A document that was not sent is as it was. -/
theorem Effect.lookup_unsent {id : GoString} (hid : w id = false ∨
    (id ≠ lastCommittedBlockID ∧ (id ≠ blockNumberToKey n ∨ doc = none))) :
    s'.db.lookup id = s.db.lookup id := by
  rw [h.db]
  refine DocStore.lookup_bulk_of_notMem fun hmem => ?_
  obtain ⟨d, hd, rfl⟩ := List.mem_map.mp hmem
  obtain ⟨hd, hwd⟩ := List.mem_filter.mp hd
  rcases hid with hw | ⟨hlast, hblock⟩
  · rw [hw] at hwd
    cases hwd
  · rcases List.mem_append.mp hd with hd | hd
    · rcases createPvtDataCouchDoc_ok hdoc with ⟨_, _, rfl⟩ | ⟨_, body, _, rfl⟩
      · cases hd
      · obtain rfl := List.mem_singleton.mp hd
        rcases hblock with hne | hnone
        · exact hne rfl
        · cases hnone
    · obtain rfl := List.mem_singleton.mp hd
      exact hlast rfl

/-- The document of the block, where it was sent and the block has none. -/
theorem Effect.lookup_block (hw : w (blockNumberToKey n) = true)
    (hfresh : s.db.lookup (blockNumberToKey n) = none) {body : BlockPvtData}
    (hsome : doc = some ⟨blockNumberToKey n, none, false, .blockPvtData body⟩) :
    s'.db.lookup (blockNumberToKey n) = some ⟨1, .blockPvtData body⟩ := by
  subst hsome
  have hmem : (⟨blockNumberToKey n, none, false, .blockPvtData body⟩ : CouchDoc) ∈
      ((some (⟨blockNumberToKey n, none, false, .blockPvtData body⟩ : CouchDoc)).toList ++
        [createLastCommittedBlockDoc n
          (s.db.currentRev lastCommittedBlockID)]).filter fun d => w d.id :=
    List.mem_filter.mpr ⟨List.mem_cons_self, hw⟩
  have hbulk := DocStore.lookup_bulk (nodup_sentIds hdoc _) hmem s.db
  rw [DocStore.lookup_put_of_rev (by rw [DocStore.currentRev, hfresh]; rfl)] at hbulk
  rw [h.db]
  exact hbulk

/-- CouchDB is as it was unless the number was written, or a new document. -/
theorem Effect.db_eq (hw : w lastCommittedBlockID = false)
    (hblock : ¬ (w (blockNumberToKey n) = true ∧ doc ≠ none ∧
      s.db.lookup (blockNumberToKey n) = none)) : s'.db = s.db := by
  rw [h.db, List.filter_append, List.filter_singleton]
  rw [show (createLastCommittedBlockDoc n (s.db.currentRev lastCommittedBlockID)).id =
    lastCommittedBlockID from rfl, hw]
  rcases createPvtDataCouchDoc_ok hdoc with ⟨_, _, rfl⟩ | ⟨_, body, _, rfl⟩
  · rfl
  · rw [Option.toList_some, List.filter_singleton]
    cases hwb : w (blockNumberToKey n) with
    | false => simp [DocStore.bulk]
    | true =>
      -- the block has a document, so the new one is refused
      have hold : s.db.lookup (blockNumberToKey n) ≠ none := fun hnone =>
        hblock ⟨hwb, Option.some_ne_none _, hnone⟩
      obtain ⟨sd, hsd⟩ := Option.ne_none_iff_exists'.mp hold
      simp [DocStore.bulk, DocStore.put, DocStore.currentRev, hsd]

end

/-! ## §2 Atomicity -/

def Recorded (x : Externals) (kv : Kv) (n : UInt64) (missing : TxMissingPvtDataMap) : Prop :=
  (∀ k bm, (prepareMissingDataEntries n missing).1.lookup k = some bm →
    prioAt x kv k = some bm) ∧
  ∀ k bm, (prepareMissingDataEntries n missing).2.lookup k = some bm →
    inelgAt x kv k = some bm

/-- The store `r` is as `s`: the documents, the missing-data entries, the list of updated
blocks and the counts. -/
structure AsBefore (x : Externals) (s r : Store) : Prop where
  db : r.db = s.db
  prio : ∀ k, NulFree k.ns → prioAt x r.missingKeysIndexDB k = prioAt x s.missingKeysIndexDB k
  deprio : ∀ k, NulFree k.ns →
    deprioAt x r.missingKeysIndexDB k = deprioAt x s.missingKeysIndexDB k
  inelg : ∀ k, NulFree k.ns → NulFree k.coll →
    inelgAt x r.missingKeysIndexDB k = inelgAt x s.missingKeysIndexDB k
  list : r.missingKeysIndexDB.lookup lastUpdatedOldBlocksKey =
    s.missingKeysIndexDB.lookup lastUpdatedOldBlocksKey
  last : r.lastCommittedBlock = s.lastCommittedBlock
  empty : r.empty = s.empty

structure FullyCommitted (x : Externals) (n : UInt64) (pvtData : List TxPvtData)
    (missing : TxMissingPvtDataMap) (r : Store) : Prop where
  last : r.lastCommittedBlock = n
  empty : r.empty = false
  data : ∀ k v, GoMap.lastValue k ((prepareDataEntries n pvtData).map DataEntry.toPair) = some v →
    r.dataAt x k = some v
  missing : Recorded x r.missingKeysIndexDB n missing

/-- A store that was `s` and has become `s'` opens again, as before or with block `n`. -/
def Atomic (x : Externals) (conf : Conf) (s s' : Store) (n : UInt64) (pvtData : List TxPvtData)
    (missing : TxMissingPvtDataMap) : Prop :=
  ∃ r, s'.reopen x conf = .ok r ∧ (AsBefore x s r ∨ FullyCommitted x n pvtData missing r)

/-- When a commit of block `n` under a fault is atomic. Either the number of the block
was not written and nothing else that is new was (and the store is not one with block 0
only, which does not reopen as it was), or the number was written and so was the rest
(and the number is one that reopens). -/
def AtomicWhen (x : Externals) (btlPolicy : BtlPolicy) (fault : CommitFault) (s : Store)
    (n : UInt64) (pvtData : List TxPvtData) (missing : TxMissingPvtDataMap) : Prop :=
  let written := fault.written (stores n pvtData missing)
  let indexed := fault.indexed (stores n pvtData missing)
  (written lastCommittedBlockID = false ∧
    ¬ (written (blockNumberToKey n) = true ∧ HasDocument btlPolicy n pvtData missing ∧
      s.db.lookup (blockNumberToKey n) = none) ∧
    (indexed = true → Recorded x s.missingKeysIndexDB n missing) ∧ n ≠ 1 ∧ n.toNat ≤ 2 ^ 63) ∨
  (written lastCommittedBlockID = true ∧ n ≠ 0 ∧ n.toNat < 2 ^ 63 ∧
    (written (blockNumberToKey n) = true ∨ prepareDataEntries n pvtData = []) ∧
    (indexed = true ∨ Recorded x s.missingKeysIndexDB n missing))

section
variable {s s' : Store} {n : UInt64} {pvtData : List TxPvtData}
  {missing : TxMissingPvtDataMap} {se : StoreEntries} {doc : Option CouchDoc}
  {pending : PendingPvtData} {w : GoString → Bool} {b : Bool}

section
variable (h : Effect s s' n doc pending w b)
include h

section
variable (hfor : PendingFor x doc se pending) (hse : EntriesOf btlPolicy n pvtData missing se)
  (hnul : NulFreeMissing missing)
include hfor hse hnul

/-- The index after the batch holds the entries of the block. -/
theorem Effect.recorded :
    Recorded x s'.missingKeysIndexDB n missing ↔
      b = true ∨ Recorded x s.missingKeysIndexDB n missing := by
  obtain ⟨kv, hsame, hkv⟩ := h.index
  obtain ⟨helg, hinelg⟩ := hnul.entries hse
  cases b with
  | false =>
    rw [hkv, if_neg (by decide)]
    simp only [Recorded, hsame.prioAt_eq, hsame.inelgAt_eq, Bool.false_eq_true, false_or]
  | true =>
    simp only [true_or, iff_true]
    rw [hkv, if_pos rfl, Recorded, ← hse.elg, ← hse.inelg]
    refine ⟨fun k bm hl => ?_, fun k bm hl => ?_⟩
    · have hk := helg k (AList.lookup_isSome.mp (by rw [hl]; rfl))
      rw [hfor.prioAt_batch (fun k' hk' => (helg k' hk').1) kv hk.1, hl]
      rfl
    · have hk := hinelg k (AList.lookup_isSome.mp (by rw [hl]; rfl))
      rw [hfor.inelgAt_batch hinelg kv hk.1 hk.2, hl]
      rfl

/-- The index is as before if the batch was not written or holds nothing new. -/
theorem Effect.index_same
    (hrec : b = true → Recorded x s.missingKeysIndexDB n missing) :
    (∀ k, NulFree k.ns →
      prioAt x s'.missingKeysIndexDB k = prioAt x s.missingKeysIndexDB k) ∧
    ∀ k, NulFree k.ns → NulFree k.coll →
      inelgAt x s'.missingKeysIndexDB k = inelgAt x s.missingKeysIndexDB k := by
  obtain ⟨kv, hsame, hkv⟩ := h.index
  obtain ⟨helg, hinelg⟩ := hnul.entries hse
  cases b with
  | false =>
    rw [hkv, if_neg (by decide)]
    exact ⟨fun k _ => hsame.prioAt_eq k, fun k _ _ => hsame.inelgAt_eq k⟩
  | true =>
    obtain ⟨hrecElg, hrecInelg⟩ := hrec rfl
    rw [← hse.elg] at hrecElg
    rw [← hse.inelg] at hrecInelg
    rw [hkv, if_pos rfl]
    refine ⟨fun k hk => ?_, fun k hk hc => ?_⟩
    · rw [hfor.prioAt_batch (fun k' hk' => (helg k' hk').1) kv hk, hsame.prioAt_eq]
      cases hl : se.elgMissingDataEntries.lookup k with
      | none => rfl
      | some bm => rw [hrecElg k bm hl]; rfl
    · rw [hfor.inelgAt_batch hinelg kv hk hc, hsame.inelgAt_eq]
      cases hl : se.inelgMissingDataEntries.lookup k with
      | none => rfl
      | some bm => rw [hrecInelg k bm hl]; rfl

end

/-- The rest of the index is as before. -/
theorem Effect.index_rest (hfor : PendingFor x doc se pending) :
    (∀ k, deprioAt x s'.missingKeysIndexDB k = deprioAt x s.missingKeysIndexDB k) ∧
    s'.missingKeysIndexDB.lookup lastUpdatedOldBlocksKey =
      s.missingKeysIndexDB.lookup lastUpdatedOldBlocksKey := by
  obtain ⟨kv, hsame, hkv⟩ := h.index
  have hlist := hsame lastUpdatedOldBlocksKey (by decide)
  cases b with
  | false =>
    rw [hkv, if_neg (by decide)]
    exact ⟨fun k => hsame.deprioAt_eq k, hlist⟩
  | true =>
    rw [hkv, if_pos rfl]
    refine ⟨fun k => (hfor.deprioAt_batch kv k).trans (hsame.deprioAt_eq k), ?_⟩
    exact (hfor.lookup_batch (by decide) (notMissingKey_lastUpdated.ne_prio x)
      (notMissingKey_lastUpdated.ne_inelg x)).trans hlist

/-- The data of the block is there if its document was sent or it has none. -/
theorem Effect.data_iff (hse : EntriesOf btlPolicy n pvtData missing se)
    (hdoc : createPvtDataCouchDoc x se.dataEntries se.expiryEntries n none = .ok doc)
    (hnul : NulFreeData pvtData) (hfresh : s.db.lookup (blockNumberToKey n) = none) :
    (∀ k v, GoMap.lastValue k ((prepareDataEntries n pvtData).map DataEntry.toPair) = some v →
      s'.dataAt x k = some v) ↔
    w (blockNumberToKey n) = true ∨ prepareDataEntries n pvtData = [] := by
  constructor
  · intro hall
    by_contra hno
    obtain ⟨hw, hne⟩ := not_or.mp hno
    obtain ⟨de, hde⟩ := List.exists_mem_of_ne_nil _ hne
    obtain ⟨v, hv⟩ : ∃ v, GoMap.lastValue de.key
        ((prepareDataEntries n pvtData).map DataEntry.toPair) = some v := by
      rw [← Option.ne_none_iff_exists', ne_eq, GoMap.lastValue_eq_none, not_not, List.map_map]
      exact List.mem_map_of_mem (f := Prod.fst ∘ DataEntry.toPair) hde
    have hb : de.key.blkNum = n := by
      obtain ⟨_, _, _, _, _, _, rfl⟩ := mem_prepareDataEntries.mp hde
      rfl
    have hat := hall _ v hv
    rw [Store.dataAt, hb, blockDoc,
      h.lookup_unsent hdoc (.inl (Bool.eq_false_iff.mpr hw)), hfresh] at hat
    cases hat
  · rintro hwrite k v hv
    obtain ⟨de, hde, heq⟩ := List.mem_map.mp (GoMap.mem_of_lastValue hv)
    rcases hwrite with hw | hnil
    · have hnk : ∀ de ∈ se.dataEntries, NulFree de.key.ns := fun de hde =>
        hnul.key (hse.dataEntries ▸ hde)
      have hb : k.blkNum = n := by
        obtain ⟨_, _, _, _, _, _, rfl⟩ := mem_prepareDataEntries.mp hde
        rw [← (Prod.mk.inj heq).1]
      rcases createPvtDataCouchDoc_ok hdoc with ⟨hdes, _, _⟩ | ⟨_, body, hof, hsome⟩
      · rw [← hse.dataEntries, hdes] at hde
        cases hde
      · rw [Store.dataAt, hb, blockDoc_of_lookup (h.lookup_block hdoc hw hfresh hsome),
          Option.bind_some, hof.dataAt_eq hnk k ((Prod.mk.inj heq).1 ▸ hnul.key hde),
          hse.dataEntries, hv]
    · rw [hnil] at hde
      cases hde

end

/-! ### Opening again -/

/-- The store opens if the number of the last block can be read. -/
theorem reopen_succeeds (conf : Conf) {last : UInt64} {rev : Option Nat}
    (hlist : ∀ {bs}, s.missingKeysIndexDB.lookup lastUpdatedOldBlocksKey = some bs →
      ∃ blks, bs = encodeLastUpdatedOldBlocksList x blks)
    (hl : lookupLastBlock s.db = .ok (last, rev)) :
    ∃ r, s.reopen x conf = .ok r ∧ r.db = s.db ∧
      r.missingKeysIndexDB = s.missingKeysIndexDB ∧ r.lastCommittedBlock = last ∧
      r.empty = decide (last = 0) := by
  unfold reopen openStore
  simp only [hl]
  split
  · obtain ⟨l, hok⟩ : ∃ l, getLastUpdatedOldBlocksList x s.missingKeysIndexDB = .ok l := by
      cases hbs : s.missingKeysIndexDB.lookup lastUpdatedOldBlocksKey with
      | none => exact ⟨[], by rw [getLastUpdatedOldBlocksList, hbs]⟩
      | some bs =>
        obtain ⟨blks, rfl⟩ := hlist hbs
        obtain ⟨l, hok, _⟩ := getLastUpdatedOldBlocksList_encode hbs
        exact ⟨l, hok⟩
    simp only [hok]
    exact ⟨_, rfl, rfl, rfl, rfl, rfl⟩
  · exact ⟨_, rfl, rfl, rfl, rfl, rfl⟩

theorem not_atomic_of_error {e : Err} (hl : lookupLastBlock s'.db = .error e) :
    ¬ Atomic x conf s s' n pvtData missing := by
  rintro ⟨r, hr, _⟩
  obtain ⟨_, _, hok, _⟩ := reopen_cases hr
  cases hl.symm.trans hok

/-- The next block of a store, and its count. -/
theorem next_cases (hc : CounterOk s) (hn : s.nextBlockNum = n) :
    (s.empty = true ∧ s.lastCommittedBlock = 0 ∧ n = 0) ∨
      (s.empty = false ∧ n.toNat = s.lastCommittedBlock.toNat + 1) := by
  have hempty : s.empty = true → s.lastCommittedBlock = 0 := by
    rcases hc with ⟨_, _, h0⟩ | ⟨_, _, h0, _⟩
    · exact fun _ => h0
    · exact h0
  have hbound : s.lastCommittedBlock.toNat ≤ 2 ^ 63 := by
    rcases hc with ⟨_, _, h0⟩ | ⟨_, _, _, hle⟩
    · rw [h0]
      decide
    · exact hle
  unfold nextBlockNum at hn
  cases he : s.empty with
  | true =>
    rw [he, if_pos rfl] at hn
    exact .inl ⟨rfl, hempty he, hn.symm⟩
  | false =>
    rw [he, if_neg (by decide)] at hn
    refine .inr ⟨rfl, ?_⟩
    rw [← hn, UInt64.toNat_add, UInt64.toNat_one]
    omega

/-! ### The two outcomes -/

section
variable (h : Effect s s' n doc pending w b) (hfor : PendingFor x doc se pending)
  (hse : EntriesOf btlPolicy n pvtData missing se)
  (hdoc : createPvtDataCouchDoc x se.dataEntries se.expiryEntries n none = .ok doc)
include h hfor hse hdoc

/-- The number was not written: the only good outcome is that nothing was. -/
theorem Effect.atomic_unwritten (hnul : NulFreeMissing missing) (hdb : DbSound x btlPolicy s)
    (hindex : IndexOk x s.missingKeysIndexDB s.lastCommittedBlock) (hn : s.nextBlockNum = n)
    (hw : w lastCommittedBlockID = false) :
    Atomic x conf s s' n pvtData missing ↔
      ¬ (w (blockNumberToKey n) = true ∧ HasDocument btlPolicy n pvtData missing ∧
        s.db.lookup (blockNumberToKey n) = none) ∧
      (b = true → Recorded x s.missingKeysIndexDB n missing) ∧ n ≠ 1 ∧ n.toNat ≤ 2 ^ 63 := by
  have hsame : lookupLastBlock s'.db = lookupLastBlock s.db := by
    rw [lookupLastBlock, lookupLastBlock, h.lookup_unsent hdoc (.inl hw)]
  have hdocs : HasDocument btlPolicy n pvtData missing ↔ doc ≠ none := by
    rw [hasDocument_iff hse]
    rcases createPvtDataCouchDoc_ok hdoc with ⟨hdes, hees, rfl⟩ | ⟨hne, d, _, rfl⟩
    · simp [hdes, hees]
    · simpa using hne
  obtain ⟨hdeprio, hlist⟩ := h.index_rest hfor
  rcases hdb.counter.lookupLastBlock with ⟨hlt, rev, hok⟩ | ⟨hmax, hne, e, herr⟩
  · obtain ⟨r, hr, hrdb, hrkv, hrlast, hrempty⟩ :=
      reopen_succeeds conf (fun hbs => hindex.list (hlist ▸ hbs)) (hsame.trans hok)
    constructor
    · rintro ⟨r', hr', hcase⟩
      obtain rfl : r = r' := Except.ok.inj (hr.symm.trans hr')
      rcases hcase with hbef | hfull
      · refine ⟨?_, fun hb => ?_, ?_, ?_⟩
        · rintro ⟨hwb, hhas, hfresh⟩
          rcases createPvtDataCouchDoc_ok hdoc with ⟨_, _, hnone⟩ | ⟨_, body, _, hsome⟩
          · exact hdocs.mp hhas hnone
          · have hnew := h.lookup_block hdoc hwb hfresh hsome
            rw [← hrdb, hbef.db, hfresh] at hnew
            cases hnew
        · obtain ⟨helg, hinelg⟩ := hnul.entries hse
          obtain ⟨hrelg, hrinelg⟩ := (h.recorded hfor hse hnul).mpr (.inl hb)
          refine ⟨fun k bm hl => ?_, fun k bm hl => ?_⟩
          · have hk := helg k (AList.lookup_isSome.mp (by rw [hse.elg, hl]; rfl))
            rw [← hbef.prio k hk.1, hrkv]
            exact hrelg k bm hl
          · have hk := hinelg k (AList.lookup_isSome.mp (by rw [hse.inelg, hl]; rfl))
            rw [← hbef.inelg k hk.1 hk.2, hrkv]
            exact hrinelg k bm hl
        · -- block 0 alone is taken for an empty store
          rintro rfl
          rcases next_cases hdb.counter hn with ⟨_, _, h01⟩ | ⟨he, hlast⟩
          · cases h01
          · have h0 : s.lastCommittedBlock = 0 :=
              UInt64.toNat_inj.mp (Nat.succ.inj hlast).symm
            have hbad := hbef.empty
            rw [hrempty, h0, he] at hbad
            cases hbad
        · rcases next_cases hdb.counter hn with ⟨_, _, rfl⟩ | ⟨_, hlast⟩
          · decide
          · omega
      · exfalso
        have hfl := hfull.last
        have hfe := hfull.empty
        rcases next_cases hdb.counter hn with ⟨_, h0, rfl⟩ | ⟨_, hlast⟩
        · rw [hrempty, h0] at hfe
          cases hfe
        · rw [← hfl, hrlast] at hlast
          omega
    · rintro ⟨hblock, hrec, hn1, _⟩
      obtain ⟨hprio, hinelg⟩ := h.index_same hfor hse hnul hrec
      refine ⟨r, hr, .inl ⟨?_, ?_, ?_, ?_, ?_, hrlast, ?_⟩⟩
      · exact hrdb.trans (h.db_eq hdoc hw fun hall => hblock ⟨hall.1, hdocs.mpr hall.2.1, hall.2.2⟩)
      · exact fun k hk => (congrArg (prioAt x · k) hrkv).trans (hprio k hk)
      · exact fun k _ => (congrArg (deprioAt x · k) hrkv).trans (hdeprio k)
      · exact fun k hk hc => (congrArg (inelgAt x · k) hrkv).trans (hinelg k hk hc)
      · rw [hrkv, hlist]
      · rw [hrempty]
        rcases next_cases hdb.counter hn with ⟨he, h0, _⟩ | ⟨he, hlast⟩
        · rw [he, h0]
          rfl
        · rw [he, decide_eq_false_iff_not]
          intro h0
          rw [h0] at hlast
          exact hn1 (UInt64.toNat_inj.mp hlast)
  · refine iff_of_false (not_atomic_of_error (hsame.trans herr)) ?_
    rintro ⟨_, _, _, hle⟩
    rcases next_cases hdb.counter hn with ⟨he, _, _⟩ | ⟨_, hlast⟩
    · cases he.symm.trans hne
    · omega

/-- The number was written: the only good outcome is that everything was. -/
theorem Effect.atomic_written
    (hnulData : NulFreeData pvtData) (hnul : NulFreeMissing missing) (hdb : DbSound x btlPolicy s)
    (hindex : IndexOk x s.missingKeysIndexDB s.lastCommittedBlock) (hn : s.nextBlockNum = n)
    (hw : w lastCommittedBlockID = true) :
    Atomic x conf s s' n pvtData missing ↔
      n ≠ 0 ∧ n.toNat < 2 ^ 63 ∧
      (w (blockNumberToKey n) = true ∨ prepareDataEntries n pvtData = []) ∧
      (b = true ∨ Recorded x s.missingKeysIndexDB n missing) := by
  have hlast := h.lookup_last hdoc hw
  have hlist := (h.index_rest hfor).2
  rcases lookupLastBlock_of_last hlast with ⟨hlt, hok⟩ | ⟨hge, e, herr⟩
  · obtain ⟨r, hr, hrdb, hrkv, hrlast, hrempty⟩ :=
      reopen_succeeds conf (fun hbs => hindex.list (hlist ▸ hbs)) hok
    have hdata : ∀ k, r.dataAt x k = s'.dataAt x k := fun k => by
      rw [Store.dataAt, Store.dataAt, hrdb]
    have hfresh : n ≠ 0 → s.db.lookup (blockNumberToKey n) = none := by
      intro hn0
      refine hdb.dbOk.lookup_eq_none.mp (Option.eq_none_iff_forall_ne_some.mpr fun d hd => ?_)
      have hle := UInt64.le_iff_toNat_le.mp (hdb.block_le hd)
      rcases next_cases hdb.counter hn with ⟨_, _, h0⟩ | ⟨_, hnext⟩
      · exact hn0 h0
      · omega
    constructor
    · rintro ⟨r', hr', hcase⟩
      obtain rfl : r = r' := Except.ok.inj (hr.symm.trans hr')
      rcases hcase with hbef | hfull
      · exfalso
        -- the document of the number has a new revision
        rw [← hrdb, hbef.db] at hlast
        rw [DocStore.currentRev, hlast] at hlast
        have hrev := congrArg StoredDoc.rev (Option.some.inj hlast)
        exact absurd hrev (Nat.ne_of_lt (Nat.lt_succ_self _))
      · have hn0 : n ≠ 0 := by
          have hfe := hfull.empty
          rw [hrempty] at hfe
          exact of_decide_eq_false hfe
        refine ⟨hn0, hlt, ?_, ?_⟩
        · refine (h.data_iff hse hdoc hnulData (hfresh hn0)).mp fun k v hv => ?_
          rw [← hdata]
          exact hfull.data k v hv
        · refine (h.recorded hfor hse hnul).mp ?_
          rw [← hrkv]
          exact hfull.missing
    · rintro ⟨hn0, _, hwrite, hrec⟩
      refine ⟨r, hr, .inr ⟨hrlast, ?_, fun k v hv => ?_, ?_⟩⟩
      · rw [hrempty, decide_eq_false hn0]
      · rw [hdata]
        exact (h.data_iff hse hdoc hnulData (hfresh hn0)).mpr hwrite k v hv
      · rw [hrkv]
        exact (h.recorded hfor hse hnul).mpr hrec
  · refine iff_of_false (not_atomic_of_error herr) ?_
    rintro ⟨_, hlt, _⟩
    omega

end

end

/-- A commit under a fault, in any state that can be reached: reopening gives the store
as it was or the store with the whole block exactly under `AtomicWhen`. -/
theorem commit_atomic_iff {ops : List Op}
    (hops : Meets (Sys.step x btlPolicy conf) Sane Sys.init ops)
    {s : Store} (hs : s = (Sys.after x btlPolicy conf ops).store) (fault : CommitFault)
    {n : UInt64} {pvtData : List TxPvtData} {missing : TxMissingPvtDataMap}
    (hdata : NulFreeData pvtData) (hmissing : NulFreeMissing missing)
    (hprep : Prepared x btlPolicy conf s n pvtData missing) :
    Atomic x conf s (commitWith x btlPolicy conf (some fault) s n pvtData missing).1 n
      pvtData missing ↔ AtomicWhen x btlPolicy fault s n pvtData missing := by
  obtain ⟨hdb, hindex, _, _⟩ := sound_after hops
  subst hs
  rcases effect_of_fault fault hprep with
    ⟨se, doc, pending, hse, hdoc, hfor, heff⟩ | ⟨⟨e, herr⟩, hsame⟩
  · unfold AtomicWhen
    cases hw : fault.written (stores n pvtData missing) lastCommittedBlockID with
    | false =>
      rw [heff.atomic_unwritten hfor hse hdoc hmissing hdb hindex hprep.next hw]
      simp [hw]
    | true =>
      rw [heff.atomic_written hfor hse hdoc hdata hmissing hdb hindex hprep.next hw]
      simp [hw]
  · rw [← hsame] at herr
    refine iff_of_false (not_atomic_of_error herr) ?_
    rw [hsame] at herr
    rcases hdb.counter.lookupLastBlock with ⟨_, _, hok⟩ | ⟨hmax, hne, _⟩
    · cases hok.symm.trans herr
    · rcases next_cases hdb.counter hprep.next with ⟨he, _, _⟩ | ⟨_, hlast⟩
      · cases he.symm.trans hne
      · rintro (⟨_, _, _, _, hle⟩ | ⟨_, _, hlt, _⟩) <;> omega

def oneMissing : TxMissingPvtDataMap :=
  GoMap.insertAll ∅ [(0, [⟨[110], [99], true⟩])]

def twoBlocks : List Op := [.commit 0 [] ∅, .commit 1 [] ∅]

theorem meets_twoBlocks : Meets (Sys.step plainExternals (lifetimePolicy fun _ _ => 0) plainConf)
    Sane Sys.init twoBlocks := by
  simp [twoBlocks, Meets, Sane, NulFreeData, NulFreeMissing, missingReports]

/-- CouchDB does not answer when block 2 is committed: nothing is written. -/
theorem commit_atomic_when_unreachable :
    let s := (Sys.after plainExternals (lifetimePolicy fun _ _ => 0) plainConf twoBlocks).store
    Atomic plainExternals plainConf s
      (commitWith plainExternals (lifetimePolicy fun _ _ => 0) plainConf
        (some (.bulkRequest (fun _ => false) (.plain "connection refused"))) s 2 []
        oneMissing).1 2 [] oneMissing := by
  intro s
  refine (commit_atomic_iff meets_twoBlocks rfl _ ?_ ?_ ?_).mpr ?_
  · simp [NulFreeData]
  · unfold NulFreeMissing NulFree
    decide +kernel
  · exact ⟨rfl, by decide +kernel, _, _, _, _, rfl, rfl, rfl, rfl⟩
  · exact .inl ⟨rfl, nofun, nofun, by decide, by decide⟩

/-- LevelDB fails at the last write of block 2: the block is committed without its
missing-data entry. -/
theorem missing_data_lost :
    let s := (Sys.after plainExternals (lifetimePolicy fun _ _ => 0) plainConf twoBlocks).store
    ¬ Atomic plainExternals plainConf s
      (commitWith plainExternals (lifetimePolicy fun _ _ => 0) plainConf
        (some (.writeBatch (.plain "no space left on device"))) s 2 [] oneMissing).1 2 []
        oneMissing := by
  intro s
  set s' := (commitWith plainExternals (lifetimePolicy fun _ _ => 0) plainConf
    (some (.writeBatch (.plain "no space left on device"))) s 2 [] oneMissing).1 with hs'
  have hread : ((s'.reopen plainExternals plainConf).toOption.map fun r =>
      (r.lastCommittedBlock, prioAt plainExternals r.missingKeysIndexDB ⟨[110], [99], 2⟩)) =
        some (2, none) := by
    decide +kernel
  rintro ⟨r, hr, hcase⟩
  rw [hr] at hread
  obtain ⟨hlast, hprio⟩ := Prod.mk.inj (Option.some.inj hread)
  rcases hcase with hbef | hfull
  · have hbad := hbef.last
    rw [hlast] at hbad
    revert hbad
    decide +kernel
  · have hbad := hfull.missing.1 ⟨[110], [99], 2⟩ ⟨1⟩ (by decide +kernel)
    rw [hprio] at hbad
    cases hbad

end

end Store

end FabricPeerExt.PvtData
