/-
FabricPeerExt.PvtData.PurgeTheorems — what one `purgeExpiredData` does: `purgeExpiredData_ok`, and
what a reader sees afterwards (`Purged`).
-/
import FabricPeerExt.PvtData.ReconcileTheorems

namespace FabricPeerExt.PvtData

open Lib

namespace Store

section
variable {x : Externals}

/-! ## §1 One document -/

def DueIn (x : Externals) (n b : UInt64) (d : BlockPvtData) (e : UInt64) (ed : ExpiryData) :
    Prop :=
  e ≤ n ∧ PvtData.expiryAt x d ⟨e, b⟩ = some ed

def expireStep (x : Externals) (n b : UInt64) (acc : Expired) (e : UInt64) (ed : ExpiryData) :
    Expired :=
  if e ≤ n then
    { acc with
      data := acc.data.eraseAll ((deriveDataKeys ⟨⟨e, b⟩, ed⟩).map (dataId x))
      batch := acc.batch ++
        (deriveMissingDataKeys ⟨⟨e, b⟩, ed⟩).flatMap (missingDataDeletes x) }
  else { acc with expBlkNums := acc.expBlkNums ++ [blockNumberToKey e] }

theorem expireEntry_eq {n b e : UInt64} {acc : Expired} {bs : Bytes} {ed : ExpiryData}
    (hv : decodeExpiryValue x bs = .ok ed) :
    expireEntry x n acc (expiryId x ⟨e, b⟩, bs) = .ok (expireStep x n b acc e ed) := by
  unfold expireEntry expireStep expiryId
  simp only [hexDecode_hexEncode, decodeExpiryKey_encodeExpiryKey x, hv, deriveKeys]
  split <;> rfl

variable {d : BlockPvtData}

/-- A pair of the expiry map is an expiry entry of the block. -/
theorem expiry_pair {b : UInt64} (hd : DocOk x b d) {h bs : Bytes}
    (hl : d.expiry.lookup h = some bs) :
    ∃ e ed, h = expiryId x ⟨e, b⟩ ∧ decodeExpiryValue x bs = .ok ed ∧
      PvtData.expiryAt x d ⟨e, b⟩ = some ed := by
  obtain ⟨e, ed, rfl, hv⟩ := hd.expiry_ok hl
  refine ⟨e, ed, rfl, hv, ?_⟩
  rw [PvtData.expiryAt, view, hl, Option.bind_some, hv]
  rfl

/-- An expiry entry of the block is a pair of the expiry map. -/
theorem pair_of_expiryAt {b e : UInt64} {ed : ExpiryData}
    (h : PvtData.expiryAt x d ⟨e, b⟩ = some ed) :
    ∃ bs, d.expiry.lookup (expiryId x ⟨e, b⟩) = some bs ∧ decodeExpiryValue x bs = .ok ed := by
  rw [PvtData.expiryAt, view, Option.bind_eq_some_iff] at h
  obtain ⟨bs, hl, hv⟩ := h
  refine ⟨bs, hl, ?_⟩
  cases hd : decodeExpiryValue x bs with
  | error e => rw [hd] at hv; cases hv
  | ok ed' => rw [hd] at hv; rw [Option.some.inj hv]

/-- What is left of the document of block `b` after a purge up to block `n`, and the
deletions in the index that go with it. -/
structure ExpiredDoc (x : Externals) (n b : UInt64) (d d' : BlockPvtData) (batch : Batch) :
    Prop where
  data : ∀ h v, d'.data.lookup h = some v ↔ d.data.lookup h = some v ∧
    ¬ ∃ e ed, DueIn x n b d e ed ∧ ∃ k ∈ deriveDataKeys ⟨⟨e, b⟩, ed⟩, dataId x k = h
  expiry : d'.expiry = d.expiry
  nums : ∀ m, m ∈ d'.expiringBlkNums ↔ ∃ e ed, n < e ∧
    PvtData.expiryAt x d ⟨e, b⟩ = some ed ∧ m = blockNumberToKey e
  batch : ∀ op, op ∈ batch ↔ ∃ e ed, DueIn x n b d e ed ∧
    ∃ k ∈ deriveMissingDataKeys ⟨⟨e, b⟩, ed⟩, op ∈ missingDataDeletes x k

/-- A reader of the loop's state that one expiry entry can turn true, and nothing can
turn false, shows at the end whether some entry of the block turned it true. -/
theorem expire_accumulates {n b : UInt64} (hd : DocOk x b d)
    {V : Expired → Prop} {G : UInt64 → ExpiryData → Prop}
    (hstep : ∀ acc e ed, V (expireStep x n b acc e ed) ↔ V acc ∨ G e ed) {acc r : Expired}
    (h : forEach (expireEntry x n) acc d.expiry.toList = .ok r) :
    V r ↔ V acc ∨ ∃ e ed, PvtData.expiryAt x d ⟨e, b⟩ = some ed ∧ G e ed := by
  have hacc := forEach_accumulates (V := V)
    (G := fun p : GoString × Bytes => ∃ e ed, p.1 = expiryId x ⟨e, b⟩ ∧
      decodeExpiryValue x p.2 = .ok ed ∧ G e ed)
    (fun s p s' hp hok => ?_) h
  · rw [hacc]
    refine or_congr_right ⟨?_, ?_⟩
    · rintro ⟨⟨h', bs⟩, hmem, e, ed, hkey, hv, hg⟩
      obtain ⟨e', ed', rfl, hv', hat⟩ := expiry_pair hd (GoMap.mem_toList.mp hmem)
      obtain ⟨rfl, -⟩ := ExpiryKey.mk.inj (expiryId_injective hkey)
      rw [← Except.ok.inj (hv'.symm.trans hv)] at hg
      exact ⟨e', ed', hat, hg⟩
    · rintro ⟨e, ed, hat, hg⟩
      obtain ⟨bs, hl, hv⟩ := pair_of_expiryAt hat
      exact ⟨_, GoMap.mem_toList.mpr hl, e, ed, rfl, hv, hg⟩
  · obtain ⟨h', bs⟩ := p
    obtain ⟨e, ed, rfl, hv, _⟩ := expiry_pair hd (GoMap.mem_toList.mp hp)
    rw [expireEntry_eq hv] at hok
    obtain rfl := Except.ok.inj hok
    rw [hstep]
    refine or_congr_right ⟨fun hg => ⟨e, ed, rfl, hv, hg⟩, ?_⟩
    rintro ⟨e', ed', hkey, hv', hg⟩
    obtain ⟨rfl, -⟩ := ExpiryKey.mk.inj (expiryId_injective hkey)
    rwa [← Except.ok.inj (hv.symm.trans hv')] at hg

theorem expire_succeeds {n b : UInt64} (hd : DocOk x b d) (acc : Expired) :
    ∃ r, forEach (expireEntry x n) acc d.expiry.toList = .ok r := by
  have hstep : ∀ s p, p ∈ d.expiry.toList → True → ∃ s', expireEntry x n s p = .ok s' ∧ True := by
    rintro s ⟨h', bs⟩ hp -
    obtain ⟨e, ed, rfl, hv, _⟩ := expiry_pair hd (GoMap.mem_toList.mp hp)
    exact ⟨_, expireEntry_eq hv, trivial⟩
  obtain ⟨r, hr, -⟩ := forEach_succeeds hstep trivial
  exact ⟨r, hr⟩

def responseOf (b : UInt64) (rev : Nat) (d : BlockPvtData) : BlockPvtDataResponse :=
  { toBlockPvtData := d, id := blockNumberToKey b, rev := rev, deleted := false }

theorem getExpiredDataDoc_ok {b : UInt64} (hd : DocOk x b d) (n : UInt64) (rev : Nat) :
    ∃ d' batch, ExpiredDoc x n b d d' batch ∧ getExpiredDataDoc x n (responseOf b rev d) =
      .ok (⟨blockNumberToKey b, some rev, d'.data.toList.isEmpty, .blockPvtData d'⟩, batch) := by
  obtain ⟨r, hr⟩ := expire_succeeds (n := n) hd ⟨d.data, [], []⟩
  refine ⟨⟨r.data, d.expiry, r.expBlkNums⟩, r.batch, ⟨?_, rfl, ?_, ?_⟩, ?_⟩
  · -- "the pair is gone" is what an entry can bring about
    intro h v
    have hgone := expire_accumulates (V := fun acc => ¬ acc.data.lookup h = some v)
      (G := fun e ed => e ≤ n ∧ ∃ k ∈ deriveDataKeys ⟨⟨e, b⟩, ed⟩, dataId x k = h) hd
      (fun acc e ed => ?_) hr
    · rw [← not_iff_not, hgone, not_and_or, not_not]
      refine or_congr_right ⟨?_, ?_⟩
      · rintro ⟨e, ed, hat, hle, hk⟩; exact ⟨e, ed, ⟨hle, hat⟩, hk⟩
      · rintro ⟨e, ed, ⟨hle, hat⟩, hk⟩; exact ⟨e, ed, hat, hle, hk⟩
    · unfold expireStep
      split
      · rename_i hle
        simp only [GoMap.lookup_eraseAll, List.mem_map, hle, true_and]
        by_cases hk : ∃ k ∈ deriveDataKeys ⟨⟨e, b⟩, ed⟩, dataId x k = h
        · simp [hk]
        · rw [if_neg hk, or_iff_left hk]
      · rename_i hle
        simp [hle]
  · intro m
    have hnums := expire_accumulates (V := fun acc => m ∈ acc.expBlkNums)
      (G := fun e _ => n < e ∧ m = blockNumberToKey e) hd (fun acc e ed => ?_) hr
    · rw [hnums]
      simp only [List.not_mem_nil, false_or]
      refine exists_congr fun e => exists_congr fun ed => ?_
      tauto
    · unfold expireStep
      split <;> grind
  · intro op
    have hops := expire_accumulates (V := fun acc => op ∈ acc.batch)
      (G := fun e ed => e ≤ n ∧
        ∃ k ∈ deriveMissingDataKeys ⟨⟨e, b⟩, ed⟩, op ∈ missingDataDeletes x k) hd
      (fun acc e ed => ?_) hr
    · rw [hops]
      simp only [List.not_mem_nil, false_or, DueIn]
      refine exists_congr fun e => exists_congr fun ed => ?_
      rw [and_left_comm, and_assoc]
    · unfold expireStep
      split
      · rename_i hle
        simp [hle, List.mem_flatMap]
      · rename_i hle
        simp [hle]
  · unfold getExpiredDataDoc responseOf
    simp only [hr]

/-! ## §2 The purge -/

/-- The answer to the query of a purge up to block `n` contains block `b`. -/
def Answers (conf : Conf) (db : CouchDB) (n b : UInt64) : Prop :=
  ∃ r ∈ retrieveBlockExpiryData conf.findLimit db (blockNumberToKey n), r.id = blockNumberToKey b

theorem mem_expiryMatches {db : CouchDB} {id : GoString} {r : BlockPvtDataResponse}
    (hdb : DbOk x db) : r ∈ expiryMatches db id ↔ ∃ b rev d,
      db.lookup (blockNumberToKey b) = some ⟨rev, .blockPvtData d⟩ ∧ r = responseOf b rev d ∧
        ∃ m ∈ d.expiringBlkNums, m ≤ id := by
  rw [expiryMatches, List.mem_filter, List.mem_filterMap, matchesExpiry, List.any_eq_true]
  simp only [decide_eq_true_eq]
  constructor
  · rintro ⟨⟨⟨key, rev, body⟩, hmem, hr⟩, hm⟩
    have hl := GoMap.mem_toList.mp hmem
    rcases hdb key _ hl with ⟨_, n, hbody⟩ | ⟨b, d, rfl, hbody, _⟩
    · obtain rfl : body = _ := hbody
      cases hr
    · obtain rfl : body = _ := hbody
      obtain rfl := Option.some.inj hr
      exact ⟨b, rev, d, hl, rfl, hm⟩
  · rintro ⟨b, rev, d, hl, rfl, hm⟩
    exact ⟨⟨_, GoMap.mem_toList.mpr hl, rfl⟩, hm⟩

def DataDue (x : Externals) (conf : Conf) (s : Store) (n : UInt64) (k : DataKey) : Prop :=
  Answers conf s.db n k.blkNum ∧ ∃ e ≤ n, ∃ ed, s.expiryAt x ⟨e, k.blkNum⟩ = some ed ∧
    ed.Present k.ns k.coll k.txNum

def MissingDue (x : Externals) (conf : Conf) (s : Store) (n : UInt64) (k : MissingDataKey) :
    Prop :=
  Answers conf s.db n k.blkNum ∧ ∃ e ≤ n, ∃ ed, s.expiryAt x ⟨e, k.blkNum⟩ = some ed ∧
    ed.Missing k.ns k.coll

structure Purged (x : Externals) (conf : Conf) (n : UInt64) (s s' : Store) : Prop where
  /-- A block of the answer has its document replaced, or deleted if no data is left. -/
  answered : ∀ b, Answers conf s.db n b → ∃ rev d d' batch,
    s.db.lookup (blockNumberToKey b) = some ⟨rev, .blockPvtData d⟩ ∧
      ExpiredDoc x n b d d' batch ∧
      s'.db.lookup (blockNumberToKey b) =
        if d'.data.toList.isEmpty then none else some ⟨rev + 1, .blockPvtData d'⟩
  other : ∀ id, (∀ b, Answers conf s.db n b → id ≠ blockNumberToKey b) →
    s'.db.lookup id = s.db.lookup id
  /-- The index loses the keys of the missing data that is due. -/
  index : ∀ key v, s'.missingKeysIndexDB.lookup key = some v ↔
    s.missingKeysIndexDB.lookup key = some v ∧
      ∀ k, MissingDue x conf s n k → ∀ op ∈ missingDataDeletes x k, op.key ≠ key
  lastCommittedBlock : s'.lastCommittedBlock = s.lastCommittedBlock
  empty : s'.empty = s.empty
  isSet : s'.isLastUpdatedOldBlocksSet = s.isLastUpdatedOldBlocksSet

theorem missingDataDeletes_result {k : MissingDataKey} {op : BatchOp}
    (h : op ∈ missingDataDeletes x k) : op.result = none := by
  simp only [missingDataDeletes, List.mem_cons, List.not_mem_nil, or_false] at h
  rcases h with rfl | rfl | rfl <;> rfl

/-- The ids of the answer are distinct. -/
theorem nodup_expiryMatches (db : CouchDB) (id : GoString) :
    (expiryMatches db id).Pairwise fun r r' => r.id ≠ r'.id := by
  refine List.Pairwise.filter _ ?_
  have hkeys := List.pairwise_map.mp (GoMap.nodup_toList db)
  refine hkeys.filterMap _ fun p q hne r hr r' hr' => ?_
  have hid : ∀ (p : GoString × StoredDoc DocBody) r,
      toBlockPvtDataResponse p.1 p.2 = some r → r.id = p.1 := by
    rintro ⟨key, rev, body⟩ r h
    cases body with
    | blockPvtData d => cases h; rfl
    | lastCommittedBlock n => cases h
  rw [hid p r hr, hid q r' hr']
  exact hne

section
variable {conf : Conf} {s : Store} {n : UInt64} (hdb : DbOk x s.db)
include hdb

/-- A document of the answer, and what `getExpiredDataDoc` makes of it. -/
theorem getExpiredDataDoc_of_mem {r : BlockPvtDataResponse}
    (hr : r ∈ retrieveBlockExpiryData conf.findLimit s.db (blockNumberToKey n)) :
    ∃ b rev d d' batch, s.db.lookup (blockNumberToKey b) = some ⟨rev, .blockPvtData d⟩ ∧
      r = responseOf b rev d ∧ ExpiredDoc x n b d d' batch ∧ getExpiredDataDoc x n r =
        .ok (⟨blockNumberToKey b, some rev, d'.data.toList.isEmpty, .blockPvtData d'⟩, batch) := by
  obtain ⟨b, rev, d, hl, rfl, _⟩ := (mem_expiryMatches hdb).mp (List.mem_of_mem_take hr)
  obtain ⟨d', batch, hex, hok⟩ := getExpiredDataDoc_ok (hdb.docOk (blockDoc_of_lookup hl)) n rev
  exact ⟨b, rev, d, d', batch, hl, rfl, hex, hok⟩

/-- The batch of a purge deletes the keys of the missing data that is due. -/
theorem mem_purgeBatch {l : List (Doc DocBody × Batch)}
    (hl : collect (getExpiredDataDoc x n)
      (retrieveBlockExpiryData conf.findLimit s.db (blockNumberToKey n)) = .ok l) (op : BatchOp) :
    op ∈ l.flatMap Prod.snd ↔ ∃ k, MissingDue x conf s n k ∧ op ∈ missingDataDeletes x k := by
  rw [List.mem_flatMap]
  constructor
  · rintro ⟨p, hp, hop⟩
    obtain ⟨r, hr, hok⟩ := (mem_of_collect hl p).mp hp
    obtain ⟨b, rev, d, d', batch, hlk, rfl, hex, hp'⟩ := getExpiredDataDoc_of_mem hdb hr
    obtain rfl := Except.ok.inj (hok.symm.trans hp')
    obtain ⟨e, ed, ⟨hle, hat⟩, k, hk, hdel⟩ := (hex.batch op).mp hop
    obtain ⟨rfl, hmiss⟩ := mem_deriveMissingDataKeys.mp hk
    refine ⟨k, ⟨⟨_, hr, rfl⟩, e, hle, ed, ?_, hmiss⟩, hdel⟩
    rw [expiryAt, blockDoc_of_lookup hlk]
    exact hat
  · rintro ⟨k, ⟨⟨r, hr, hid⟩, e, hle, ed, hat, hmiss⟩, hop⟩
    obtain ⟨b, rev, d, d', batch, hlk, rfl, hex, hp⟩ := getExpiredDataDoc_of_mem hdb hr
    refine ⟨_, (mem_of_collect hl _).mpr ⟨_, hr, hp⟩, ?_⟩
    obtain rfl := blockNumberToKey_injective hid
    rw [expiryAt, blockDoc_of_lookup hlk] at hat
    exact (hex.batch op).mpr
      ⟨e, ed, ⟨hle, hat⟩, k, mem_deriveMissingDataKeys.mpr ⟨rfl, hmiss⟩, hop⟩

/-- Over a database of the right shape a purge does not fail. -/
theorem purgeExpiredData_ok :
    ∃ s', purgeExpiredData x conf s n = (s', .ok ()) ∧ Purged x conf n s s' := by
  set rs := retrieveBlockExpiryData conf.findLimit s.db (blockNumberToKey n) with hrs
  obtain ⟨l, hl⟩ : ∃ l, collect (getExpiredDataDoc x n) rs = .ok l := by
    refine collect_succeeds fun r hr => ?_
    obtain ⟨_, _, _, _, _, _, _, _, hok⟩ := getExpiredDataDoc_of_mem hdb hr
    exact ⟨_, hok⟩
  have hids : (l.map Prod.fst).map Doc.id = rs.map BlockPvtDataResponse.id := by
    rw [List.map_map]
    refine map_collect hl fun r hr p hp => ?_
    obtain ⟨b, rev, d, d', batch, _, rfl, _, hok⟩ := getExpiredDataDoc_of_mem hdb hr
    obtain rfl := Except.ok.inj (hok.symm.trans hp)
    rfl
  have hnodup : ((l.map Prod.fst).map Doc.id).Nodup := by
    rw [hids, hrs, retrieveBlockExpiryData]
    exact List.pairwise_map.mpr ((nodup_expiryMatches _ _).sublist (List.take_sublist _ _))
  have hdel := mem_purgeBatch hdb hl
  refine ⟨{ s with
      db := s.db.bulk (l.map Prod.fst)
      missingKeysIndexDB := Batch.apply (l.flatMap Prod.snd) s.missingKeysIndexDB }, ?_, ?_⟩
  · rw [purgeExpiredData, ← hrs, prepareExpiredData, hl]
  · refine ⟨?_, ?_, ?_, rfl, rfl, rfl⟩
    · rintro b ⟨r, hr, hid⟩
      obtain ⟨b', rev, d, d', batch, hlk, rfl, hex, hp⟩ := getExpiredDataDoc_of_mem hdb hr
      have hpl := (mem_of_collect hl _).mpr ⟨_, hr, hp⟩
      obtain rfl := blockNumberToKey_injective hid
      refine ⟨rev, d, d', batch, hlk, hex, ?_⟩
      have hbulk := DocStore.lookup_bulk hnodup (List.mem_map_of_mem hpl) s.db
      rw [DocStore.lookup_put_of_rev (by rw [DocStore.currentRev, hlk]; rfl)] at hbulk
      exact hbulk
    · intro id hne
      refine DocStore.lookup_bulk_of_notMem ?_
      rw [hids, List.mem_map]
      rintro ⟨r, hr, rfl⟩
      obtain ⟨b, rev, d, _, _, _, rfl, _⟩ := getExpiredDataDoc_of_mem hdb hr
      exact hne b ⟨_, hr, rfl⟩ rfl
    · intro key v
      rw [Batch.lookup_apply_deletes]
      · refine and_congr_right fun _ => ⟨?_, ?_⟩
        · intro h k hk op hop
          exact h op ((hdel op).mpr ⟨k, hk, hop⟩)
        · intro h op hop
          obtain ⟨k, hk, hop⟩ := (hdel op).mp hop
          exact h k hk op hop
      · intro op hop
        obtain ⟨k, _, hop⟩ := (hdel op).mp hop
        exact missingDataDeletes_result hop

end

/-! ## §3 What a reader sees afterwards -/

structure NulFreeExpiry (x : Externals) (s : Store) : Prop where
  present : ∀ {ek ed ns coll txNum}, s.expiryAt x ek = some ed → ed.Present ns coll txNum →
    NulFree ns
  missing : ∀ {ek ed ns coll}, s.expiryAt x ek = some ed → ed.Missing ns coll →
    NulFree ns ∧ NulFree coll

section
variable {conf : Conf} {n : UInt64} {s s' : Store} (h : Purged x conf n s s')
include h

theorem Purged.blockDoc_other {b : UInt64} (hb : ¬ Answers conf s.db n b) :
    blockDoc s'.db b = blockDoc s.db b :=
  blockDoc_congr (h.other _ fun _ hb' he => hb (blockNumberToKey_injective he ▸ hb'))

/-- The document of a block of the answer, before and after. -/
theorem Purged.blockDoc_answered {b : UInt64} (hb : Answers conf s.db n b) :
    ∃ d d' batch, blockDoc s.db b = some d ∧ ExpiredDoc x n b d d' batch ∧
      blockDoc s'.db b = if d'.data.toList.isEmpty then none else some d' := by
  obtain ⟨rev, d, d', batch, hl, hex, hl'⟩ := h.answered b hb
  refine ⟨d, d', batch, blockDoc_of_lookup hl, hex, ?_⟩
  rw [blockDoc, hl']
  cases d'.data.toList.isEmpty <;> rfl

/-- A purge makes no documents. -/
theorem Purged.blockDoc_of_none {b : UInt64} (hb : blockDoc s.db b = none) :
    blockDoc s'.db b = none := by
  by_cases hans : Answers conf s.db n b
  · obtain ⟨d, _, _, hd, _⟩ := h.blockDoc_answered hans
    cases hb.symm.trans hd
  · rw [h.blockDoc_other hans, hb]

/-- A key keeps its data unless it is due. -/
theorem Purged.dataAt_iff (hnul : NulFreeExpiry x s) {k : DataKey} (hk : NulFree k.ns)
    {v : CollectionPvtReadWriteSet} :
    s'.dataAt x k = some v ↔ s.dataAt x k = some v ∧ ¬ DataDue x conf s n k := by
  by_cases hb : Answers conf s.db n k.blkNum
  · obtain ⟨d, d', _, hd, hex, hd'⟩ := h.blockDoc_answered hb
    have hread : s'.dataAt x k = PvtData.dataAt x d' k := by
      rw [Store.dataAt, hd']
      split
      · rename_i hnil
        have hnone := GoMap.toList_eq_nil.mp (List.isEmpty_iff.mp hnil) (dataId x k)
        rw [PvtData.dataAt, view, hnone]
        rfl
      · rfl
    rw [hread, Store.dataAt, hd, Option.bind_some, PvtData.dataAt, PvtData.dataAt, view, view,
      Option.bind_eq_some_iff, Option.bind_eq_some_iff]
    simp only [hex.data]
    have hdue : DataDue x conf s n k ↔ ∃ e ed, DueIn x n k.blkNum d e ed ∧
        ∃ k' ∈ deriveDataKeys ⟨⟨e, k.blkNum⟩, ed⟩, dataId x k' = dataId x k := by
      have hat : ∀ e, s.expiryAt x ⟨e, k.blkNum⟩ = PvtData.expiryAt x d ⟨e, k.blkNum⟩ := by
        intro e
        rw [Store.expiryAt, hd, Option.bind_some]
      constructor
      · rintro ⟨_, e, hle, ed, hexp, hp⟩
        exact ⟨e, ed, ⟨hle, hat e ▸ hexp⟩, k, mem_deriveDataKeys.mpr ⟨rfl, hp⟩, rfl⟩
      · rintro ⟨e, ed, ⟨hle, hexp⟩, k', hk', heq⟩
        obtain ⟨_, hp⟩ := mem_deriveDataKeys.mp hk'
        rw [← hat e] at hexp
        obtain rfl := dataId_injective (hnul.present hexp hp) hk heq
        exact ⟨hb, e, hle, ed, hexp, hp⟩
    rw [hdue]
    constructor
    · rintro ⟨bs, ⟨hl, hno⟩, hv⟩; exact ⟨⟨bs, hl, hv⟩, hno⟩
    · rintro ⟨⟨bs, hl, hv⟩, hno⟩; exact ⟨bs, ⟨hl, hno⟩, hv⟩
  · rw [Store.dataAt, h.blockDoc_other hb, ← Store.dataAt, iff_self_and]
    exact fun _ hdue => hb hdue.1

/-- Every expiry entry stays as long as its document does. -/
theorem Purged.expiryAt_iff {ek : ExpiryKey} {ed : ExpiryData} :
    s'.expiryAt x ek = some ed ↔
      s.expiryAt x ek = some ed ∧ blockDoc s'.db ek.committingBlk ≠ none := by
  rw [Store.expiryAt, Store.expiryAt]
  by_cases hb : Answers conf s.db n ek.committingBlk
  · obtain ⟨d, d', _, hd, hex, hd'⟩ := h.blockDoc_answered hb
    rw [hd', hd, Option.bind_some]
    split
    · simp
    · simp [PvtData.expiryAt, hex.expiry]
  · rw [h.blockDoc_other hb, iff_self_and]
    intro he hnone
    rw [hnone] at he
    cases he

theorem Purged.dbOk (hdb : DbOk x s.db) : DbOk x s'.db := by
  intro id sd hl
  by_cases hid : ∃ b, Answers conf s.db n b ∧ id = blockNumberToKey b
  · obtain ⟨b, hb, rfl⟩ := hid
    obtain ⟨rev, d, d', batch, hl0, hex, hl'⟩ := h.answered b hb
    have hd := hdb.docOk (blockDoc_of_lookup hl0)
    rw [hl'] at hl
    split at hl
    · cases hl
    · obtain rfl := Option.some.inj hl
      refine .inr ⟨b, d', rfl, rfl, fun hl => hd.data_ok ((hex.data _ _).mp hl).1, ?_, ?_⟩
      · rw [hex.expiry]
        exact hd.expiry_ok
      · intro m hm
        obtain ⟨e, ed, _, hat, rfl⟩ := (hex.nums m).mp hm
        exact ⟨e, ed, rfl, by rwa [PvtData.expiryAt, hex.expiry]⟩
  · refine hdb id sd ?_
    rwa [h.other id fun b hb he => hid ⟨b, hb, he⟩] at hl

end

end

end Store

end FabricPeerExt.PvtData
