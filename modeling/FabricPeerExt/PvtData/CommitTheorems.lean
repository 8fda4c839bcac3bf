/-
FabricPeerExt.PvtData.CommitTheorems — what one `Commit` of the CouchDB store does:
`commitWith_cases` is its inversion under any fault, `Committed` what a reader sees afterwards.
-/
import FabricPeerExt.PvtData.HelperTheorems
import FabricPeerExt.PvtData.Views

namespace FabricPeerExt.PvtData

open Lib

namespace Store

section
variable {x : Externals} {btlPolicy : BtlPolicy} {conf : Conf}

/-! ## The steps of a commit -/

def SameIndex (kv kv' : Kv) : Prop :=
  ∀ k, k ≠ pendingCommitKey → kv'.lookup k = kv.lookup k

theorem SameIndex.refl (kv : Kv) : SameIndex kv kv := fun _ _ => rfl

theorem SameIndex.insert (kv : Kv) (bytes : Bytes) :
    SameIndex kv (kv.insert pendingCommitKey bytes) := by
  intro k hk
  rw [GoMap.lookup_insert_eq, if_neg hk]

structure PendingFor (x : Externals) (doc : Option CouchDoc) (se : StoreEntries)
    (pending : PendingPvtData) : Prop where
  pvtDataDoc : pending.pvtDataDoc = doc
  elg : preparePendingMissingDataEntries x se.elgMissingDataEntries
    (encodeElgPrioMissingDataKey x) = .ok pending.elgMissingDataEntries
  inelg : preparePendingMissingDataEntries x se.inelgMissingDataEntries
    (encodeInelgMissingDataKey x) = .ok pending.inelgMissingDataEntries

variable {m : GoMap MissingDataKey BitSet}

theorem preparePendingMissingDataEntries_nil
    (h : m.toList = []) (encodeKey : MissingDataKey → Bytes) :
    preparePendingMissingDataEntries x m encodeKey = .ok ∅ := by
  rw [preparePendingMissingDataEntries, h]
  rfl

theorem pendingOf_ok {doc : Option CouchDoc} {se : StoreEntries} {pending : PendingPvtData}
    (h : pendingOf x doc se = .ok pending) : PendingFor x doc se pending := by
  unfold pendingOf at h
  split at h
  · cases h
  · rename_i elg helg
    split at h
    · cases h
    · rename_i inelg hinelg
      rw [← Except.ok.inj h]
      exact ⟨rfl, helg, hinelg⟩

theorem prepareMissingKeys_ok {fault : Option CommitFault} {kv kv' : Kv}
    {doc : Option CouchDoc} {se : StoreEntries} {pending : PendingPvtData}
    (h : prepareMissingKeys x fault kv doc se = .ok (kv', pending)) :
    PendingFor x doc se pending ∧ SameIndex kv kv' := by
  unfold prepareMissingKeys at h
  split at h
  · cases hp : pendingOf x doc se with
    | error e => simp [hp] at h
    | ok p =>
      cases hj : x.pendingPvtData p with
      | error e => simp [hp, hj] at h
      | ok bytes =>
        simp only [hp, hj] at h
        split at h
        · cases h
        · obtain ⟨rfl, rfl⟩ := Prod.mk.inj (Except.ok.inj h)
          exact ⟨pendingOf_ok hp, SameIndex.insert kv bytes⟩
  · -- nothing to store: the document and both maps are empty
    rename_i hnone
    obtain ⟨rfl, rfl⟩ := Prod.mk.inj (Except.ok.inj h)
    simp only [Bool.or_eq_true, not_or, Bool.not_eq_true, Bool.not_eq_false',
      Option.isSome_eq_false_iff, Option.isNone_iff_eq_none, List.isEmpty_iff] at hnone
    obtain ⟨⟨hdoc, helg⟩, hinelg⟩ := hnone
    exact ⟨⟨hdoc.symm, preparePendingMissingDataEntries_nil helg _,
      preparePendingMissingDataEntries_nil hinelg _⟩, SameIndex.refl kv⟩

/-- The revision that goes with the last-committed-block document is the stored one. -/
theorem lookupLastBlock_rev {db : CouchDB} {last : UInt64} {rev : Option Nat}
    (h : lookupLastBlock db = .ok (last, rev)) :
    rev = db.currentRev lastCommittedBlockID := by
  unfold lookupLastBlock at h
  unfold DocStore.currentRev
  split at h
  · rename_i hl
    rw [hl, ← (Prod.mk.inj (Except.ok.inj h)).2]
    rfl
  · cases h
  · rename_i hl
    split at h
    · cases h
    · rw [hl, ← (Prod.mk.inj (Except.ok.inj h)).2]
      rfl

structure Reached (x : Externals) (btlPolicy : BtlPolicy) (conf : Conf) (s : Store)
    (n : UInt64) (pvtData : List TxPvtData) (missing : TxMissingPvtDataMap)
    (se : StoreEntries) (doc : Option CouchDoc) (pending : PendingPvtData) (kv : Kv)
    (last : UInt64) : Prop where
  committer : conf.committer = true
  next : s.nextBlockNum = n
  entries : prepareStoreEntries btlPolicy n pvtData missing = .ok se
  create : createPvtDataCouchDoc x se.dataEntries se.expiryEntries n none = .ok doc
  pendingFor : PendingFor x doc se pending
  index : SameIndex s.missingKeysIndexDB kv
  lookup : lookupLastBlock s.db = .ok (last, s.db.currentRev lastCommittedBlockID)

/-- What `Commit` does under any fault. -/
theorem commitWith_cases {fault : Option CommitFault} {s s' : Store} {n : UInt64}
    {pvtData : List TxPvtData} {missing : TxMissingPvtDataMap} {r : Except Err Unit}
    (h : commitWith x btlPolicy conf fault s n pvtData missing = (s', r)) :
    (∃ e kv, r = .error e ∧ SameIndex s.missingKeysIndexDB kv ∧
      s' = { s with missingKeysIndexDB := kv }) ∨
    ∃ se doc pending kv last,
      Reached x btlPolicy conf s n pvtData missing se doc pending kv last ∧
      (s', r) = commitPending fault { s with missingKeysIndexDB := kv } n pending
        (createLastCommittedBlockDoc n (s.db.currentRev lastCommittedBlockID)) := by
  have same : ∀ e : Err, (s, (Except.error e : Except Err Unit)) = (s', r) →
      ∃ e kv, r = .error e ∧ SameIndex s.missingKeysIndexDB kv ∧
        s' = { s with missingKeysIndexDB := kv } := by
    intro e he
    obtain ⟨rfl, rfl⟩ := Prod.mk.inj he
    exact ⟨e, s.missingKeysIndexDB, rfl, SameIndex.refl _, rfl⟩
  unfold commitWith at h
  split at h
  · exact .inl (same _ h)
  rename_i hcommitter
  simp only at h
  split at h
  · exact .inl (same _ h)
  rename_i hnext
  split at h
  · exact .inl (same _ h)
  rename_i se hse
  split at h
  · exact .inl (same _ h)
  rename_i doc hdoc
  split at h
  · exact .inl (same _ h)
  rename_i kv pending hkeys
  obtain ⟨hpending, hindex⟩ := prepareMissingKeys_ok hkeys
  unfold prepareLastCommittedBlockDoc at h
  cases hlast : lookupLastBlock s.db with
  | error e =>
    simp only [hlast] at h
    obtain ⟨rfl, rfl⟩ := Prod.mk.inj h
    exact .inl ⟨_, kv, rfl, hindex, rfl⟩
  | ok p =>
    obtain ⟨last, rev⟩ := p
    obtain rfl := lookupLastBlock_rev hlast
    simp only [hlast] at h
    exact .inr ⟨se, doc, pending, kv, last,
      ⟨by simpa using hcommitter, not_not.mp hnext, hse, hdoc, hpending, hindex, hlast⟩, h.symm⟩

/-- A `Commit` with working databases that reached its bulk request. -/
structure Committed (x : Externals) (btlPolicy : BtlPolicy) (conf : Conf) (s s' : Store)
    (n : UInt64) (pvtData : List TxPvtData) (missing : TxMissingPvtDataMap)
    (se : StoreEntries) (doc : Option CouchDoc) (pending : PendingPvtData) (kv : Kv)
    (last : UInt64) : Prop
    extends Reached x btlPolicy conf s n pvtData missing se doc pending kv last where
  eq : s' = { db := s.db.bulk (doc.toList ++
                [createLastCommittedBlockDoc n (s.db.currentRev lastCommittedBlockID)])
              missingKeysIndexDB := (missingKeysBatch pending).apply kv
              lastCommittedBlock := n
              empty := false
              isLastUpdatedOldBlocksSet := s.isLastUpdatedOldBlocksSet }

/-- What `Commit` does when both databases work. -/
theorem commit_cases {s s' : Store} {n : UInt64} {pvtData : List TxPvtData}
    {missing : TxMissingPvtDataMap} {r : Except Err Unit}
    (h : commit x btlPolicy conf s n pvtData missing = (s', r)) :
    (∃ e kv, r = .error e ∧ SameIndex s.missingKeysIndexDB kv ∧
      s' = { s with missingKeysIndexDB := kv }) ∨
    (r = .ok () ∧ ∃ se doc pending kv last,
      Committed x btlPolicy conf s s' n pvtData missing se doc pending kv last) := by
  rcases commitWith_cases h with hearly | ⟨se, doc, pending, kv, last, hreached, hpend⟩
  · exact .inl hearly
  · obtain ⟨rfl, rfl⟩ := Prod.mk.inj hpend
    refine .inr ⟨rfl, se, doc, pending, kv, last, hreached, ?_⟩
    simp only [updateLastCommittedBlockNum, hreached.pendingFor.pvtDataDoc]

def NulFreeData (pvtData : List TxPvtData) : Prop :=
  ∀ t ∈ pvtData, ∀ ns ∈ t.writeSet.nsPvtRwset, NulFree ns.namespaceName

instance (pvtData : List TxPvtData) : Decidable (NulFreeData pvtData) :=
  inferInstanceAs (Decidable (∀ t ∈ _, ∀ ns ∈ _, _))

theorem NulFreeData.key {pvtData : List TxPvtData} (h : NulFreeData pvtData) {n : UInt64}
    {de : DataEntry} (hde : de ∈ prepareDataEntries n pvtData) : NulFree de.key.ns := by
  obtain ⟨t, ht, ns, hns, c, _, rfl⟩ := mem_prepareDataEntries.mp hde
  exact h t ht ns hns

/-! ## CouchDB after a commit -/

section
variable {s s' : Store} {n : UInt64} {pvtData : List TxPvtData} {missing : TxMissingPvtDataMap}
  {se : StoreEntries} {doc : Option CouchDoc} {pending : PendingPvtData} {kv : Kv}
  {last : UInt64}

/-- The document of a block, where there is one, has the block's id and no revision. -/
theorem Reached.doc_shape
    (h : Reached x btlPolicy conf s n pvtData missing se doc pending kv last) :
    (se.dataEntries = [] ∧ se.expiryEntries = [] ∧ doc = none) ∨
      ∃ d, DocOf x se.dataEntries se.expiryEntries d ∧
        doc = some ⟨blockNumberToKey n, none, false, .blockPvtData d⟩ := by
  rcases createPvtDataCouchDoc_ok h.create with hnone | ⟨_, hsome⟩
  · exact .inl hnone
  · exact .inr hsome

/-- The ids of the documents a commit sends are distinct. -/
theorem nodup_docIds {des : List DataEntry} {ees : List ExpiryEntry}
    (hdoc : createPvtDataCouchDoc x des ees n none = .ok doc) (rev : Option Nat) :
    ((doc.toList ++ [createLastCommittedBlockDoc n rev]).map Doc.id).Nodup := by
  rcases createPvtDataCouchDoc_ok hdoc with ⟨_, _, rfl⟩ | ⟨_, d, _, rfl⟩
  · simp
  · simp [createLastCommittedBlockDoc, blockNumberToKey_ne_lastCommittedBlockID n]

variable (h : Committed x btlPolicy conf s s' n pvtData missing se doc pending kv last)
include h

theorem Committed.lookup_last :
    s'.db.lookup lastCommittedBlockID =
      some ⟨(s.db.currentRev lastCommittedBlockID).getD 0 + 1,
        .lastCommittedBlock (formatUint n)⟩ := by
  have hids := nodup_docIds h.create (s.db.currentRev lastCommittedBlockID)
  have hbulk := DocStore.lookup_bulk hids (List.mem_append_right _ (List.mem_singleton_self _)) s.db
  rw [DocStore.lookup_put_of_rev rfl] at hbulk
  rw [h.eq]
  exact hbulk

/-- A document other than the block's and the last-committed-block one is unchanged. -/
theorem Committed.lookup_other {id : GoString} (hn : id ≠ blockNumberToKey n)
    (hid : id ≠ lastCommittedBlockID) : s'.db.lookup id = s.db.lookup id := by
  rw [h.eq]
  refine DocStore.lookup_bulk_of_notMem ?_
  rcases h.doc_shape with ⟨_, _, rfl⟩ | ⟨d, _, rfl⟩
  · simpa [createLastCommittedBlockDoc] using hid
  · simp [createLastCommittedBlockDoc, hid, hn]

theorem Committed.blockDoc_of_ne {b : UInt64} (hb : b ≠ n) :
    blockDoc s'.db b = blockDoc s.db b :=
  blockDoc_congr (h.lookup_other (fun he => hb (blockNumberToKey_injective he))
    (blockNumberToKey_ne_lastCommittedBlockID b))

/-- The document of the committed block, if it did not exist before. -/
theorem Committed.blockDoc_self (hfresh : s.db.lookup (blockNumberToKey n) = none) :
    (se.dataEntries = [] ∧ se.expiryEntries = [] ∧
      s'.db.lookup (blockNumberToKey n) = none) ∨
    ∃ d, DocOf x se.dataEntries se.expiryEntries d ∧
      s'.db.lookup (blockNumberToKey n) = some ⟨1, .blockPvtData d⟩ := by
  have hids := nodup_docIds h.create (s.db.currentRev lastCommittedBlockID)
  rcases h.doc_shape with ⟨hdes, hees, rfl⟩ | ⟨d, hd, rfl⟩
  · refine .inl ⟨hdes, hees, ?_⟩
    rw [h.eq]
    refine (DocStore.lookup_bulk_of_notMem ?_).trans hfresh
    simpa [createLastCommittedBlockDoc] using blockNumberToKey_ne_lastCommittedBlockID n
  · refine .inr ⟨d, hd, ?_⟩
    rw [h.eq]
    refine (DocStore.lookup_bulk hids List.mem_cons_self s.db).trans ?_
    refine DocStore.lookup_put_of_rev ?_
    rw [DocStore.currentRev, hfresh]
    rfl

/-- A block whose document was there before keeps it: the new one is refused. -/
theorem Committed.blockDoc_conflict {sd : StoredDoc DocBody}
    (hold : s.db.lookup (blockNumberToKey n) = some sd) :
    s'.db.lookup (blockNumberToKey n) = some sd := by
  have hids := nodup_docIds h.create (s.db.currentRev lastCommittedBlockID)
  rw [h.eq]
  rcases h.doc_shape with ⟨_, _, rfl⟩ | ⟨d, hd, rfl⟩
  · refine (DocStore.lookup_bulk_of_notMem ?_).trans hold
    simpa [createLastCommittedBlockDoc] using blockNumberToKey_ne_lastCommittedBlockID n
  · refine (DocStore.lookup_bulk hids List.mem_cons_self s.db).trans ?_
    rw [DocStore.lookup_put, if_neg, hold]
    rintro ⟨_, hrev⟩
    rw [DocStore.currentRev, hold] at hrev
    cases hrev

/-- The data of the committed block: the last entry of each key. -/
theorem Committed.dataAt_self (hfresh : s.db.lookup (blockNumberToKey n) = none)
    (hnul : NulFreeData pvtData) {k : DataKey} (hb : k.blkNum = n) (hk : NulFree k.ns) :
    s'.dataAt x k = GoMap.lastValue k (se.dataEntries.map DataEntry.toPair) := by
  rw [Store.dataAt, hb]
  rcases h.blockDoc_self hfresh with ⟨hdes, _, hl⟩ | ⟨d, hd, hl⟩
  · rw [blockDoc, hl, hdes]
    rfl
  · rw [blockDoc_of_lookup hl, Option.bind_some]
    refine hd.dataAt_eq (fun de hde => ?_) k hk
    rw [(prepareStoreEntries_ok h.entries).dataEntries] at hde
    exact hnul.key hde

theorem Committed.expiryAt_self (hfresh : s.db.lookup (blockNumberToKey n) = none)
    {e : UInt64} {ed : ExpiryData} :
    s'.expiryAt x ⟨e, n⟩ = some ed ↔ (⟨⟨e, n⟩, ed⟩ : ExpiryEntry) ∈ se.expiryEntries := by
  have hunique := (prepareStoreEntries_ok h.entries).key_unique
  rw [Store.expiryAt]
  rcases h.blockDoc_self hfresh with ⟨_, hees, hl⟩ | ⟨d, hd, hl⟩
  · rw [blockDoc, hl, hees]
    simp
  · rw [blockDoc_of_lookup hl, Option.bind_some, hd.expiryAt_eq]
    constructor
    · intro hv
      obtain ⟨ee, hee, heq⟩ := List.mem_map.mp (GoMap.mem_of_lastValue hv)
      obtain ⟨hkey, hval⟩ := Prod.mk.inj heq
      obtain ⟨key, value⟩ := ee
      obtain rfl : key = _ := hkey
      obtain rfl : value = _ := hval
      exact hee
    · intro hmem
      refine GoMap.lastValue_of_mem (List.mem_map_of_mem (f := ExpiryEntry.toPair) hmem) ?_
      intro w hw
      obtain ⟨ee, hee, heq⟩ := List.mem_map.mp hw
      obtain ⟨hkey, hval⟩ := Prod.mk.inj heq
      obtain rfl := hunique ee hee _ hmem hkey
      exact hval.symm

end

/-- A commit keeps the shape of the database. -/
theorem Committed.dbOk {s s' : Store} {n : UInt64} {pvtData : List TxPvtData}
    {missing : TxMissingPvtDataMap} {se : StoreEntries} {doc : Option CouchDoc}
    {pending : PendingPvtData} {kv : Kv} {last : UInt64}
    (h : Committed x btlPolicy conf s s' n pvtData missing se doc pending kv last)
    (hdb : DbOk x s.db) (hnul : NulFreeData pvtData) : DbOk x s'.db := by
  rw [h.eq]
  refine DbOk.bulk (fun d hd => ?_) hdb
  rcases List.mem_append.mp hd with hd | hd
  · rcases h.doc_shape with ⟨_, _, rfl⟩ | ⟨body, hbody, rfl⟩
    · cases hd
    · obtain rfl := List.mem_singleton.mp hd
      have hse := prepareStoreEntries_ok h.entries
      refine .inr ⟨n, body, rfl, rfl, hbody.docOk (fun de hde => ?_) hse.committingBlk⟩
      rw [hse.dataEntries] at hde
      exact ⟨blkNum_of_mem_prepareDataEntries hde, hnul.key hde,
        collectionName_of_mem_prepareDataEntries hde⟩
  · obtain rfl := List.mem_singleton.mp hd
    exact .inl ⟨rfl, n, rfl⟩

/-! ## The index after a commit -/

def NulFreeMissing (missing : TxMissingPvtDataMap) : Prop :=
  ∀ r ∈ missingReports missing, NulFree r.2.namespaceName ∧ NulFree r.2.collection

instance (missing : TxMissingPvtDataMap) : Decidable (NulFreeMissing missing) :=
  inferInstanceAs (Decidable (∀ r ∈ _, _))

theorem NulFreeMissing.key {missing : TxMissingPvtDataMap} (h : NulFreeMissing missing)
    {n : UInt64} {elg : Bool} {k : MissingDataKey}
    (hk : k ∈ missingEntriesOf n elg (missingReports missing) ∅) :
    NulFree k.ns ∧ NulFree k.coll := by
  obtain ⟨r, hr, _, rfl⟩ := mem_missingEntriesOf k hk
  exact h r hr

section
variable {encodeKey : MissingDataKey → Bytes} {p : GoMap GoString GoString}
  (h : preparePendingMissingDataEntries x m encodeKey = .ok p)
include h

/-- The pending map of a group, read at a typed key. -/
theorem view_pending {k : MissingDataKey} (hinj : ∀ k' ∈ m, encodeKey k' = encodeKey k → k' = k) :
    view encodeKey (decodeMissingDataValue x) p k = m.lookup k := by
  unfold preparePendingMissingDataEntries at h
  split at h
  · cases h
  · rename_i ps hps
    rw [← Except.ok.inj h, view_insertAll decodeMissingDataValue_encodeMissingDataValue hps,
      GoMap.lastValue_toList]
    · exact Option.or_none
    · intro q hq heq
      refine hinj q.1 ?_ heq
      rw [← AList.lookup_isSome, GoMap.mem_toList.mp hq]
      rfl

/-- Every pair of a pending map is an encoded pair of the group. -/
theorem mem_pending {key bs : Bytes} (hl : p.lookup key = some bs) :
    ∃ k b, m.lookup k = some b ∧ key = encodeKey k ∧ decodeMissingDataValue x bs = .ok b := by
  unfold preparePendingMissingDataEntries at h
  split at h
  · cases h
  · rename_i ps hps
    rw [← Except.ok.inj h] at hl
    obtain ⟨q, hq, hkey, hval⟩ := mem_of_lookup_insertAll hps hl
    exact ⟨q.1, q.2, GoMap.mem_toList.mp hq, hkey,
      decodeMissingDataValue_encodeMissingDataValue hval⟩

end

theorem lookup_missingKeysBatch (pending : PendingPvtData) (kv : Kv) (key : Bytes) :
    ((missingKeysBatch pending).apply kv).lookup key =
      if key = pendingCommitKey then none
      else (pending.inelgMissingDataEntries.lookup key).or
        ((pending.elgMissingDataEntries.lookup key).or (kv.lookup key)) := by
  have hdelete : ∀ m : Kv, (Batch.apply [.delete pendingCommitKey] m).lookup key =
      if key = pendingCommitKey then none else m.lookup key :=
    fun m => GoMap.lookup_erase_eq m pendingCommitKey key
  rw [missingKeysBatch, Batch.apply_append, Batch.apply_append, hdelete,
    Batch.lookup_apply_puts, Batch.lookup_apply_puts]

section
variable {doc : Option CouchDoc} {se : StoreEntries} {pending : PendingPvtData}
  (h : PendingFor x doc se pending)
include h

theorem PendingFor.inelg_eq_none {key : Bytes} (hkey : ∀ k, key ≠ encodeInelgMissingDataKey x k) :
    pending.inelgMissingDataEntries.lookup key = none :=
  Option.eq_none_iff_forall_ne_some.mpr fun bs hl => by
    obtain ⟨k, _, _, hk, _⟩ := mem_pending h.inelg hl
    exact hkey k hk

theorem PendingFor.elg_eq_none {key : Bytes} (hkey : ∀ k, key ≠ encodeElgPrioMissingDataKey x k) :
    pending.elgMissingDataEntries.lookup key = none :=
  Option.eq_none_iff_forall_ne_some.mpr fun bs hl => by
    obtain ⟨k, _, _, hk, _⟩ := mem_pending h.elg hl
    exact hkey k hk

/-- The batch does not touch an index key outside its two groups. -/
theorem PendingFor.lookup_batch {kv : Kv} {key : Bytes} (hne : key ≠ pendingCommitKey)
    (hprio : ∀ k, key ≠ encodeElgPrioMissingDataKey x k)
    (hinelg : ∀ k, key ≠ encodeInelgMissingDataKey x k) :
    ((missingKeysBatch pending).apply kv).lookup key = kv.lookup key := by
  rw [lookup_missingKeysBatch, if_neg hne, h.inelg_eq_none hinelg, h.elg_eq_none hprio]
  rfl

theorem PendingFor.deprioAt_batch (kv : Kv) (k : MissingDataKey) :
    deprioAt x ((missingKeysBatch pending).apply kv) k = deprioAt x kv k :=
  view_congr (h.lookup_batch (notMissingKey_pending.ne_deprio x k).symm
    (fun k' he => prio_ne_deprio x k' k he.symm) (fun k' he => deprio_ne_inelg x k k' he))

/-- The prioritised bitmaps after the batch: those of the block, and the old ones. -/
theorem PendingFor.prioAt_batch (hnul : ∀ k' ∈ se.elgMissingDataEntries, NulFree k'.ns)
    (kv : Kv) {k : MissingDataKey} (hk : NulFree k.ns) :
    prioAt x ((missingKeysBatch pending).apply kv) k =
      (se.elgMissingDataEntries.lookup k).or (prioAt x kv k) := by
  have hlook := lookup_missingKeysBatch pending kv (encodeElgPrioMissingDataKey x k)
  rw [if_neg (notMissingKey_pending.ne_prio x k).symm,
    h.inelg_eq_none (prio_ne_inelg x k), Option.none_or] at hlook
  refine (view_or hlook fun bs hl => ?_).trans ?_
  · obtain ⟨_, b, _, _, hval⟩ := mem_pending h.elg hl
    exact ⟨b, hval⟩
  · rw [view_pending h.elg, prioAt]
    intro k' hk' heq
    exact (encodeElgMissingDataKey_injective x (hnul k' hk') hk heq).2

/-- The ineligible bitmaps after the batch: those of the block, and the old ones. -/
theorem PendingFor.inelgAt_batch
    (hnul : ∀ k' ∈ se.inelgMissingDataEntries, NulFree k'.ns ∧ NulFree k'.coll) (kv : Kv)
    {k : MissingDataKey} (hns : NulFree k.ns) (hcoll : NulFree k.coll) :
    inelgAt x ((missingKeysBatch pending).apply kv) k =
      (se.inelgMissingDataEntries.lookup k).or (inelgAt x kv k) := by
  have hlook := lookup_missingKeysBatch pending kv (encodeInelgMissingDataKey x k)
  rw [if_neg (notMissingKey_pending.ne_inelg x k).symm,
    h.elg_eq_none (fun k' he => prio_ne_inelg x k' k he.symm), Option.none_or] at hlook
  refine (view_or hlook fun bs hl => ?_).trans ?_
  · obtain ⟨_, b, _, _, hval⟩ := mem_pending h.inelg hl
    exact ⟨b, hval⟩
  · rw [view_pending h.inelg, inelgAt]
    intro k' hk' heq
    obtain ⟨hns', hcoll'⟩ := hnul k' hk'
    exact encodeInelgMissingDataKey_injective x hns' hns hcoll' hcoll heq

end

section
variable {kv kv' : Kv} (h : SameIndex kv kv') (k : MissingDataKey)
include h k

/-- The marker is not seen in the missing-data groups. -/
theorem SameIndex.prioAt_eq :
    prioAt x kv' k = prioAt x kv k :=
  view_congr (h _ (notMissingKey_pending.ne_prio x k).symm)

theorem SameIndex.deprioAt_eq :
    deprioAt x kv' k = deprioAt x kv k :=
  view_congr (h _ (notMissingKey_pending.ne_deprio x k).symm)

theorem SameIndex.inelgAt_eq :
    inelgAt x kv' k = inelgAt x kv k :=
  view_congr (h _ (notMissingKey_pending.ne_inelg x k).symm)

end

/-- The names of a block's entries have no NUL byte. -/
theorem NulFreeMissing.entries {n : UInt64} {pvtData : List TxPvtData}
    {missing : TxMissingPvtDataMap} {se : StoreEntries} (h : NulFreeMissing missing)
    (hse : EntriesOf btlPolicy n pvtData missing se) :
    (∀ k ∈ se.elgMissingDataEntries, NulFree k.ns ∧ NulFree k.coll) ∧
      ∀ k ∈ se.inelgMissingDataEntries, NulFree k.ns ∧ NulFree k.coll := by
  rw [hse.elg, hse.inelg, prepareMissingDataEntries_eq]
  exact ⟨fun k hk => h.key hk, fun k hk => h.key hk⟩

section
variable {s s' : Store} {n : UInt64} {pvtData : List TxPvtData} {missing : TxMissingPvtDataMap}
  {se : StoreEntries} {doc : Option CouchDoc} {pending : PendingPvtData} {kv : Kv}
  {last : UInt64}
  (h : Committed x btlPolicy conf s s' n pvtData missing se doc pending kv last)
include h

theorem Committed.index_eq (key : Bytes) (hkey : key ≠ pendingCommitKey) :
    s'.missingKeysIndexDB.lookup key = (pending.inelgMissingDataEntries.lookup key).or
      ((pending.elgMissingDataEntries.lookup key).or (s.missingKeysIndexDB.lookup key)) := by
  rw [h.eq]
  refine (lookup_missingKeysBatch pending kv key).trans ?_
  rw [if_neg hkey, h.index key hkey]

/-- An index key outside the missing-data groups keeps its value. -/
theorem Committed.lookup_index {key : Bytes} (hkey : NotMissingKey key)
    (hne : key ≠ pendingCommitKey) :
    s'.missingKeysIndexDB.lookup key = s.missingKeysIndexDB.lookup key := by
  rw [h.eq, ← h.index key hne]
  exact h.pendingFor.lookup_batch hne (hkey.ne_prio x) (hkey.ne_inelg x)

theorem Committed.deprioAt_eq (k : MissingDataKey) :
    deprioAt x s'.missingKeysIndexDB k = deprioAt x s.missingKeysIndexDB k := by
  rw [h.eq, ← h.index.deprioAt_eq k]
  exact h.pendingFor.deprioAt_batch kv k

theorem Committed.prioAt_eq (hnul : NulFreeMissing missing) {k : MissingDataKey}
    (hk : NulFree k.ns) :
    prioAt x s'.missingKeysIndexDB k =
      (se.elgMissingDataEntries.lookup k).or (prioAt x s.missingKeysIndexDB k) := by
  rw [h.eq, ← h.index.prioAt_eq k]
  exact h.pendingFor.prioAt_batch
    (fun k' hk' => ((hnul.entries (prepareStoreEntries_ok h.entries)).1 k' hk').1) kv hk

end

end

end Store

end FabricPeerExt.PvtData
