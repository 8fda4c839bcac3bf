/-
FabricPeerExt.Blkstorage.RollbackTheorems — what `Rollback` leaves (`rollback_spec`,
`rollback_iff`).

The keys of the blocks are decimal numbers without padding, so the range of keys is the range of
numbers only for some pairs of a target and a last block.
-/
import FabricPeerExt.Blkstorage.LookupTheorems
import FabricPeerExt.Blkstorage.Rollback
import FabricPeerExt.Lib.DecimalOrder

namespace FabricPeerExt.Blkstorage

open Lib
open PvtData (GoString Err)

/-! ## §1 Ranges -/

def IdSorted (rows : List (GoString × StoredDoc Body)) : Prop := rows.Pairwise fun p q => p.1 < q.1

theorem idSorted_sortedDocs (db : CouchDB) : IdSorted (sortedDocs db) := by
  have : Std.Total fun p q : GoString × StoredDoc Body => p.1 ≤ q.1 :=
    ⟨fun p q => List.le_total p.1 q.1⟩
  have : IsTrans (GoString × StoredDoc Body) fun p q => p.1 ≤ q.1 :=
    ⟨fun _ _ _ => List.le_trans⟩
  have hsorted : (sortedDocs db).Pairwise fun p q => p.1 ≤ q.1 := List.pairwise_insertionSort _ _
  have hperm : (sortedDocs db).Perm db.toList := List.perm_insertionSort _ _
  have hnodup : ((sortedDocs db).map Prod.fst).Nodup :=
    (hperm.map Prod.fst).nodup_iff.mpr (GoMap.nodup_toList db)
  refine (hsorted.and (List.pairwise_map.mp hnodup)).imp fun h => ?_
  exact (List.le_iff_lt_or_eq.mp h.1).resolve_right h.2

theorem mem_docsBetween {db : CouchDB} {startKey endKey id : GoString} {d : StoredDoc Body} :
    (id, d) ∈ docsBetween db startKey endKey ↔
      db.lookup id = some d ∧ startKey ≤ id ∧ id < endKey := by
  rw [docsBetween, List.mem_filter, sortedDocs, List.mem_insertionSort, GoMap.mem_toList,
    decide_eq_true_eq]

theorem idSorted_docsBetween (db : CouchDB) (startKey endKey : GoString) :
    IdSorted (docsBetween db startKey endKey) := (idSorted_sortedDocs db).filter _

/-- From a row of a range on, the range is what remains. -/
theorem docsBetween_from {db : CouchDB} {startKey endKey : GoString} {n : Nat}
    {row : GoString × StoredDoc Body} (h : (docsBetween db startKey endKey)[n]? = some row) :
    docsBetween db row.1 endKey = (docsBetween db startKey endKey).drop n := by
  obtain ⟨hlt, hrow⟩ := List.getElem?_eq_some_iff.mp h
  have hmem : row ∈ docsBetween db startKey endKey := hrow ▸ List.getElem_mem hlt
  have hstart : startKey ≤ row.1 := (mem_docsBetween.mp hmem).2.1
  have hsub : docsBetween db row.1 endKey =
      (docsBetween db startKey endKey).filter fun p => row.1 ≤ p.1 := by
    rw [docsBetween, docsBetween, List.filter_filter]
    refine List.filter_congr fun p _ => ?_
    simp only [Bool.decide_and]
    by_cases hp : row.1 ≤ p.1
    · simp [hp, List.le_trans hstart hp]
    · simp [hp]
  have hsorted := idSorted_docsBetween db startKey endKey
  rw [hsub]
  conv_lhs => rw [← List.take_append_drop n (docsBetween db startKey endKey)]
  rw [List.filter_append]
  -- the rows before it have smaller ids, those from it on do not
  have hbefore : ((docsBetween db startKey endKey).take n).filter (fun p => row.1 ≤ p.1) = [] := by
    rw [List.filter_eq_nil_iff]
    intro p hp hle
    obtain ⟨i, hi, rfl⟩ := List.mem_take_iff_getElem.mp hp
    have hlt' := List.pairwise_iff_getElem.mp hsorted i n (by omega) hlt (by omega)
    rw [hrow] at hlt'
    exact absurd (of_decide_eq_true hle) (List.not_le.mpr hlt')
  have hfrom : ((docsBetween db startKey endKey).drop n).filter (fun p => row.1 ≤ p.1) =
      (docsBetween db startKey endKey).drop n := by
    rw [List.filter_eq_self]
    intro p hp
    obtain ⟨i, hi, rfl⟩ := List.mem_drop_iff_getElem.mp hp
    refine decide_eq_true ?_
    rcases Nat.eq_zero_or_pos i with rfl | hpos
    · simp [← hrow]
    · have := List.pairwise_iff_getElem.mp hsorted n (n + i) hlt (by omega) (by omega)
      rw [hrow] at this
      exact List.le_iff_lt_or_eq.mpr (Or.inl this)
  rw [hbefore, hfrom, List.nil_append]

/-- The pages of a range together. -/
theorem readDocPages_eq {db : CouchDB} {endKey : GoString} {limit : Nat} (hlimit : 0 < limit) :
    ∀ {fuel : Nat} {startKey : GoString}, (docsBetween db startKey endKey).length < fuel →
      readDocPages db endKey limit fuel startKey =
        (docsBetween db startKey endKey).filter fun doc => !isCouchInternalKey doc.1
  | fuel + 1, startKey, h => by
    rw [readDocPages, readDocPage]
    cases hrow : (docsBetween db startKey endKey)[limit]? with
    | none =>
      rw [List.take_of_length_le (List.getElem?_eq_none_iff.mp hrow)]
      simp only [or_true, if_true]
    | some row =>
      obtain ⟨hlt, hget⟩ := List.getElem?_eq_some_iff.mp hrow
      have hmem : row ∈ docsBetween db startKey endKey := hget ▸ List.getElem_mem hlt
      have hend : row.1 ≠ endKey := fun hc =>
        List.lt_irrefl endKey (hc ▸ (mem_docsBetween.mp hmem).2.2)
      -- an id behind another one is not the empty string
      have hnil : row.1 ≠ [] := by
        intro hc
        have := List.pairwise_iff_getElem.mp (idSorted_docsBetween db startKey endKey) 0 limit
          (by omega) hlt hlimit
        rw [hget, hc] at this
        exact List.not_lt_nil _ this
      simp only [hnil, hend, or_self, if_false]
      rw [readDocPages_eq hlimit (by rw [docsBetween_from hrow, List.length_drop]; omega),
        docsBetween_from hrow, ← List.filter_append, List.take_append_drop]

theorem readDocRange_eq (db : CouchDB) (startKey endKey : GoString) (queryLimit : Int) :
    readDocRange db startKey endKey queryLimit =
      (docsBetween db startKey endKey).filter fun doc => !isCouchInternalKey doc.1 := by
  refine readDocPages_eq ?_ ?_
  · split
    · exact Nat.one_pos
    · omega
  · have hle : (docsBetween db startKey endKey).length ≤ (sortedDocs db).length :=
      List.length_filter_le _ _
    rw [sortedDocs, List.length_insertionSort] at hle
    omega

/-! ## §2 Deletion -/

/-- After the deletion of a range its documents are gone, and all others are there. -/
theorem readDoc_deleteDocs (db : CouchDB) (startKey endKey : GoString) (queryLimit : Int)
    (id : GoString) :
    readDoc (db.bulk ((readDocRange db startKey endKey queryLimit).map addDeletedFlagToCouchDoc))
        id =
      if startKey ≤ id ∧ id < endKey ∧ isCouchInternalKey id = false then none
      else readDoc db id := by
  rw [readDocRange_eq]
  set docs := (docsBetween db startKey endKey).filter fun doc => !isCouchInternalKey doc.1
    with hdocs
  have hmem : ∀ {id d}, (id, d) ∈ docs ↔ db.lookup id = some d ∧ startKey ≤ id ∧ id < endKey ∧
      isCouchInternalKey id = false := by
    intro id d
    rw [hdocs, List.mem_filter, mem_docsBetween, Bool.not_eq_true', and_assoc, and_assoc]
  have hids : ((docs.map addDeletedFlagToCouchDoc).map Doc.id).Nodup := by
    rw [List.map_map]
    refine List.pairwise_map.mpr (((idSorted_docsBetween db startKey endKey).filter _).imp ?_)
    intro p q hpq hc
    have hid : p.1 = q.1 := hc
    exact List.lt_irrefl q.1 (hid ▸ hpq)
  have hnotMem : (∀ d, (id, d) ∉ docs) → id ∉ (docs.map addDeletedFlagToCouchDoc).map Doc.id := by
    intro h hc
    rw [List.map_map] at hc
    obtain ⟨⟨id', d⟩, hd, hid⟩ := List.mem_map.mp hc
    obtain rfl : id' = id := hid
    exact h d hd
  unfold readDoc
  split
  next hin =>
    cases hl : db.lookup id with
    | none =>
      rw [DocStore.lookup_bulk_of_notMem (hnotMem fun d hd => ?_), hl]
      · rfl
      · exact nomatch hl.symm.trans (hmem.mp hd).1
    | some d =>
      have hd : addDeletedFlagToCouchDoc (id, d) ∈ docs.map addDeletedFlagToCouchDoc :=
        List.mem_map_of_mem (hmem.mpr ⟨hl, hin⟩)
      have hrev : db.currentRev id = some d.rev := by rw [DocStore.currentRev, hl]; rfl
      have hput := DocStore.lookup_bulk hids hd db
      rw [DocStore.lookup_put_of_rev hrev] at hput
      have hid : (addDeletedFlagToCouchDoc (id, d)).id = id := rfl
      rw [hid] at hput
      rw [hput]
      rfl
  next hout =>
    rw [DocStore.lookup_bulk_of_notMem (hnotMem fun d hd => hout (hmem.mp hd).2)]

/-! ## §3 Rollback -/

theorem blockNumberToKey_ne_preResetHeightKey (n : UInt64) :
    blockNumberToKey n ≠ preResetHeightKey := by
  obtain ⟨c, cs, h, _, hc⟩ := exists_blockNumberToKey_eq_cons n
  rw [h]
  rintro heq
  obtain rfl : c = 112 := (List.cons.inj heq).1
  exact absurd hc (by decide)

theorem isCouchInternalKey_blockNumberToKey (n : UInt64) :
    isCouchInternalKey (blockNumberToKey n) = false := by
  obtain ⟨c, cs, h, _, hc⟩ := exists_blockNumberToKey_eq_cons n
  rw [isCouchInternalKey, h]
  refine decide_eq_false ?_
  rintro heq
  obtain rfl : c = 95 := Option.some.inj heq
  exact absurd hc (by decide)

/-- The checkpoint's document is in no range of blocks. -/
theorem not_blkMgrInfoKey_lt (n : UInt64) : ¬ blkMgrInfoKey < blockNumberToKey n := by
  obtain ⟨c, cs, h, _, hc⟩ := exists_blockNumberToKey_eq_cons n
  rw [h, blkMgrInfoKey, List.cons_lt_cons_iff]
  rintro (hlt | ⟨rfl, _⟩)
  · exact absurd (UInt8.lt_of_lt_of_le hlt hc) (by decide)
  · exact absurd hc (by decide)

def Deletes (target last n : UInt64) : Prop :=
  blockNumberToKey (target + 1) ≤ blockNumberToKey n ∧
    blockNumberToKey n < blockNumberToKey (last + 1)

instance (target last n : UInt64) : Decidable (Deletes target last n) :=
  inferInstanceAs (Decidable (_ ∧ _))

section
variable (x : Externals)

variable {blocks : List Block} {db : Databases} {last : UInt64}

section
variable (h : Readable x db.blockStore blocks)
  (hpre : readDoc db.blockStore preResetHeightKey = none)
include h hpre

/-- The store after the height was recorded and the database opened. -/
theorem record_open :
    ∃ db₁ s, recordHeightIfGreaterThanPreviousRecording x db = (db₁, .ok ()) ∧
      newCDBBlockStore x ⟨0, 0⟩ none db₁ = (s.db, .ok s) ∧
      s.cpInfo = chainCheckpoint x blocks ∧ Saved x s.db.blockStore blocks ∧
      (∀ n, readDoc s.db.blockStore (blockNumberToKey n) =
        readDoc db.blockStore (blockNumberToKey n)) ∧
      s.db.txnStore = db.txnStore := by
  have hpreKey : preResetHeightKey ≠ blkMgrInfoKey := by decide
  obtain ⟨s₀, hs₀, hhead₀, hread₀, hsaved₀, hdb₀⟩ :=
    newCDBBlockStore_of_readable x h ⟨0, 0⟩
  have hpre₀ : readDoc s₀.db.blockStore preResetHeightKey = none := by
    rw [hdb₀, readDoc_saveDoc, if_neg hpreKey, hpre]
  have hkeep₀ : ∀ n, readDoc s₀.db.blockStore (blockNumberToKey n) =
      readDoc db.blockStore (blockNumberToKey n) := by
    intro n
    rw [hdb₀, readDoc_saveDoc, if_neg (blockNumberToKey_ne_blkMgrInfoKey n)]
  -- the recording keeps what a start reads
  obtain ⟨db₁, hrec, hread₁, hkeep₁, htxn₁⟩ : ∃ db₁,
      recordHeightIfGreaterThanPreviousRecording x db = (db₁, .ok ()) ∧
      Readable x db₁.blockStore blocks ∧
      (∀ n, readDoc db₁.blockStore (blockNumberToKey n) =
        readDoc db.blockStore (blockNumberToKey n)) ∧
      db₁.txnStore = db.txnStore := by
    have htxn₀ : s₀.db.txnStore = db.txnStore := by rw [hdb₀]
    simp only [recordHeightIfGreaterThanPreviousRecording, hs₀, previouslyRecordedHt, hpre₀]
    split
    next =>
      have hkeep : ∀ n, readDoc (saveDoc s₀.db.blockStore preResetHeightKey
          ⟨(∅ : GoMap Field JsonValue).insert .height
            (.string (formatUint (s₀.cpInfo.lastBlockNumber + 1))), []⟩) (blockNumberToKey n) =
          readDoc s₀.db.blockStore (blockNumberToKey n) := by
        intro n
        rw [readDoc_saveDoc, if_neg (blockNumberToKey_ne_preResetHeightKey n)]
      refine ⟨_, rfl, ⟨?_, fun b hb => ?_⟩, fun n => (hkeep n).trans (hkeep₀ n), htxn₀⟩
      · refine Saved.getCheckpointInfo x ?_
        rw [Saved, readDoc_saveDoc, if_neg hpreKey.symm]
        exact hsaved₀
      · obtain ⟨body, hbody, hdoc⟩ := hread₀.last b hb
        exact ⟨body, hbody, (hkeep _).trans hdoc⟩
    next => exact ⟨_, rfl, hread₀, hkeep₀, htxn₀⟩
  obtain ⟨s, hs, hhead, _, hsaved, hdb⟩ := newCDBBlockStore_of_readable x hread₁ ⟨0, 0⟩
  refine ⟨db₁, s, hrec, hs, (Prod.mk.inj hhead).1, hsaved, fun n => ?_, ?_⟩
  · rw [hdb, readDoc_saveDoc, if_neg (blockNumberToKey_ne_blkMgrInfoKey n), hkeep₁]
  · rw [hdb, htxn₁]

/-- What `Rollback` leaves: the documents of the blocks outside the range of keys, all
transaction documents, and the checkpoint of the target if the peer is a committer and the
document of the target was not deleted. -/
theorem rollback_spec {lastBlock targetBlock : Block}
    {body : Body}
    (hlast : blocks.getLast? = some lastBlock) (hbody : blockToCouchDoc x targetBlock = .ok body)
    (htarget : readDoc db.blockStore (blockNumberToKey targetBlock.header.number) = some body)
    (committer : Bool) (queryLimit : Int) :
    ∃ db', rollback x committer queryLimit db targetBlock.header.number =
        (db', if Deletes targetBlock.header.number lastBlock.header.number
          targetBlock.header.number then
          .error (.panic "invalid memory address or nil pointer dereference") else .ok ()) ∧
      db'.txnStore = db.txnStore ∧
      (∀ n, readDoc db'.blockStore (blockNumberToKey n) =
        if Deletes targetBlock.header.number lastBlock.header.number n then none
        else readDoc db.blockStore (blockNumberToKey n)) ∧
      (¬ Deletes targetBlock.header.number lastBlock.header.number targetBlock.header.number →
        readDoc db'.blockStore blkMgrInfoKey = some (checkpointInfoToCouchDoc x
          (CdbBlockStore.checkpointOf x
            (if committer then targetBlock.header else lastBlock.header)))) := by
  obtain ⟨db₁, s, hrec, hs, hcp, hsaved, hkeep, htxn⟩ := record_open x h hpre
  have hcp' : s.cpInfo = CdbBlockStore.checkpointOf x lastBlock.header := by
    rw [hcp, chainCheckpoint, hlast]
  have hlastNum : s.cpInfo.lastBlockNumber = lastBlock.header.number := by rw [hcp']; rfl
  set docs := readDocRange s.db.blockStore (blockNumberToKey (targetBlock.header.number + 1))
    (blockNumberToKey (lastBlock.header.number + 1)) queryLimit with hdocs
  set left := s.db.blockStore.bulk (docs.map addDeletedFlagToCouchDoc) with hleft
  have hblocks : ∀ n, readDoc left (blockNumberToKey n) =
      if Deletes targetBlock.header.number lastBlock.header.number n then none
      else readDoc db.blockStore (blockNumberToKey n) := by
    intro n
    rw [hleft, hdocs, readDoc_deleteDocs, hkeep]
    simp only [isCouchInternalKey_blockNumberToKey, and_true]
    rfl
  have hcheck : readDoc left blkMgrInfoKey = some (checkpointInfoToCouchDoc x
      (CdbBlockStore.checkpointOf x lastBlock.header)) := by
    rw [hleft, hdocs, readDoc_deleteDocs, if_neg (fun hc => not_blkMgrInfoKey_lt _ hc.2.1), hsaved,
      ← hcp, hcp']
  simp only [rollback, hrec, hs, hlastNum, ← hdocs, ← hleft]
  by_cases hdel : Deletes targetBlock.header.number lastBlock.header.number
      targetBlock.header.number
  · have hnone := hblocks targetBlock.header.number
    rw [if_pos hdel] at hnone
    simp only [hnone, if_pos hdel]
    exact ⟨_, rfl, htxn, hblocks, fun hc => absurd hdel hc⟩
  · have hsome := hblocks targetBlock.header.number
    rw [if_neg hdel, htarget] at hsome
    simp only [hsome, if_neg hdel, couchAttachmentsToBlock_blockToCouchDoc x hbody]
    cases committer with
    | true =>
      refine ⟨_, rfl, htxn, fun n => ?_, fun _ => ?_⟩
      · exact (readDoc_saveDoc ..).trans
          ((if_neg (blockNumberToKey_ne_blkMgrInfoKey n)).trans (hblocks n))
      · exact (readDoc_saveDoc ..).trans (if_pos rfl)
    | false => exact ⟨_, rfl, htxn, hblocks, fun _ => hcheck⟩

end

/-! ## §4 When it works -/

def Numbered (blocks : List Block) (last : UInt64) : Prop :=
  blocks.map (fun b => b.header.number) = (List.range (last.toNat + 1)).map UInt64.ofNat

/-- What `Rollback` is for: the documents of the blocks above the target and of their
transactions are gone, the blocks up to the target can be read, and the target is the last
block. -/
structure RolledBack (blocks : List Block) (target : UInt64) (db : Databases)
    (r : Except Err Unit) : Prop where
  ok : r = .ok ()
  blocks_gone : ∀ b ∈ blocks, target < b.header.number →
    readDoc db.blockStore (blockNumberToKey b.header.number) = none
  txns_gone : ∀ b ∈ blocks, target < b.header.number → ∀ txID doc,
    readDoc db.txnStore txID = some doc →
      doc.fields.lookup .blockNumber ≠ some (.string (blockNumberToKey b.header.number))
  blocks_kept : ∀ b ∈ blocks, b.header.number ≤ target →
    retrieveBlockByNumber x db.blockStore b.header.number = .ok b
  checkpoint : ∃ i, loadCurrentInfo x db.blockStore = .ok (some i) ∧ i.isChainEmpty = false ∧
    i.lastBlockNumber = target

/-- The texts between those of `target + 1` and `last + 1` are the texts of the numbers
between: the two agree up to the last digit; or the target is zero and the other one has only
nines before its last digit. -/
def RangeOk (target last : UInt64) : Prop :=
  target = last ∨ (last ≠ PvtData.maxUint64 ∧
    ((target.toNat + 1) / 10 = (last.toNat + 1) / 10 ∨
      (target = 0 ∧ ∃ k, 1 ≤ k ∧ (last.toNat + 1) / 10 = 10 ^ k - 1)))

/-- No transaction ID appears above the target for the first time. -/
def NoNewTxns (blocks : List Block) (target : UInt64) : Prop :=
  ∀ b ∈ blocks, target < b.header.number → ∀ txID, txID ≠ [] →
    (∃ i e, TxAt x b.data i e txID) →
      ∃ c ∈ blocks, c.header.number ≤ target ∧ ∃ i e, TxAt x c.data i e txID

/-! ### Numbers -/

section
variable (h : Numbered blocks last)
include h

theorem Numbered.length :
    blocks.length = last.toNat + 1 := by
  have := congrArg List.length h
  simpa using this

theorem Numbered.length_le :
    blocks.length ≤ 2 ^ 64 := h.length ▸ last.toNat_lt

theorem Numbered.getElem {i : Nat}
    {b : Block} (hb : blocks[i]? = some b) : b.header.number.toNat = i := by
  obtain ⟨hlt, _⟩ := List.getElem?_eq_some_iff.mp hb
  have hlast := last.toNat_lt
  have hlen := h.length
  have hnum : (blocks.map fun b => b.header.number)[i]? = some b.header.number := by
    rw [List.getElem?_map, hb]
    rfl
  rw [h, List.getElem?_map, List.getElem?_range (by omega)] at hnum
  rw [← Option.some.inj hnum]
  exact UInt64.toNat_ofNat_of_lt' (show i < 2 ^ 64 by omega)

theorem Numbered.exists_block {n : UInt64} (hn : n ≤ last) : ∃ b ∈ blocks, b.header.number = n := by
  have hlt : n.toNat < blocks.length := by
    rw [h.length]
    exact Nat.lt_succ_of_le (UInt64.le_iff_toNat_le.mp hn)
  refine ⟨blocks[n.toNat], List.getElem_mem hlt, ?_⟩
  exact UInt64.toNat_inj.mp (h.getElem (List.getElem?_eq_getElem hlt))

theorem Numbered.number_le {b : Block} (hb : b ∈ blocks) : b.header.number ≤ last := by
  obtain ⟨i, hi⟩ := List.mem_iff_getElem?.mp hb
  obtain ⟨hlt, _⟩ := List.getElem?_eq_some_iff.mp hi
  rw [UInt64.le_iff_toNat_le, h.getElem hi]
  rw [h.length] at hlt
  omega

theorem Numbered.exists_last :
    ∃ b, blocks.getLast? = some b ∧ b.header.number = last := by
  have hlen := h.length
  obtain ⟨b, hb⟩ : ∃ b, blocks[last.toNat]? = some b :=
    ⟨_, List.getElem?_eq_getElem (by omega)⟩
  refine ⟨b, ?_, UInt64.toNat_inj.mp (h.getElem hb)⟩
  rw [List.getLast?_eq_getElem?, hlen, Nat.add_sub_cancel, hb]

end

/-- A block behind another one has a greater number. -/
theorem Numbered.lt_of_append {blocks before after : List Block} {b c : Block}
    (h : Numbered blocks last) (heq : blocks = before ++ b :: after) (hc : c ∈ after) :
    b.header.number < c.header.number := by
  obtain ⟨j, hj⟩ := List.mem_iff_getElem?.mp hc
  have hb : blocks[before.length]? = some b := by
    rw [heq, List.getElem?_append_right (Nat.le_refl _), Nat.sub_self]
    rfl
  have hc' : blocks[before.length + 1 + j]? = some c := by
    rw [heq, List.getElem?_append_right (by omega),
      show before.length + 1 + j - before.length = j + 1 by omega, List.getElem?_cons_succ, hj]
  rw [UInt64.lt_iff_toNat_lt, h.getElem hb, h.getElem hc']
  omega

/-- The range of keys is the range of numbers. -/
theorem deletes_iff_rangeOk {target last : UInt64} (h : target ≤ last) :
    (∀ n ≤ last, Deletes target last n ↔ target < n) ↔ RangeOk target last := by
  by_cases heq : target = last
  · subst heq
    refine iff_of_true (fun n hn => iff_of_false ?_ (UInt64.not_lt.mpr hn)) (Or.inl rfl)
    exact fun hd => absurd hd.2 (List.not_lt.mpr hd.1)
  · have hlt : target < last := UInt64.lt_of_le_of_ne h heq
    have hltN : target.toNat < last.toNat := UInt64.lt_iff_toNat_lt.mp hlt
    have hlastN := last.toNat_lt
    by_cases hmax : last = PvtData.maxUint64
    · -- the end of the range is the text of zero, the first of all
      refine iff_of_false (fun hall => ?_) (fun hc => hc.elim heq fun hc => hc.1 hmax)
      have hdel := ((hall last (UInt64.le_refl last)).mpr hlt).2
      have hzero : last + 1 = 0 := by rw [hmax]; rfl
      rw [hzero] at hdel
      obtain ⟨c, cs, hkey, hc, _⟩ := exists_blockNumberToKey_eq_cons last
      have h0 : blockNumberToKey 0 = [48] := by decide
      rw [hkey, h0, List.cons_lt_cons_iff] at hdel
      rcases hdel with hd | ⟨_, hd⟩
      · exact absurd hd (UInt8.not_lt.mpr hc)
      · exact List.not_lt_nil _ hd
    · have hmaxN : last.toNat ≠ 2 ^ 64 - 1 := fun hc => hmax (UInt64.toNat_inj.mp hc)
      have hb : (last + 1).toNat = last.toNat + 1 := by
        rw [UInt64.toNat_add, UInt64.toNat_one]
        omega
      have ha : (target + 1).toNat = target.toNat + 1 := by
        rw [UInt64.toNat_add, UInt64.toNat_one]
        omega
      have hdel : ∀ n : UInt64, Deletes target last n ↔
          Between (target.toNat + 1) (last.toNat + 1) n.toNat := by
        intro n
        rw [← ha, ← hb]
        rfl
      have hfaithful : (∀ n ≤ last, Deletes target last n ↔ target < n) ↔
          Faithful (target.toNat + 1) (last.toNat + 1) := by
        constructor
        · intro hall n hn
          have hn64 : (UInt64.ofNat n).toNat = n :=
            UInt64.toNat_ofNat_of_lt' (show n < 2 ^ 64 by omega)
          have hiff := hall (UInt64.ofNat n)
            (UInt64.le_iff_toNat_le.mpr (by rw [hn64]; exact Nat.lt_succ_iff.mp hn))
          rw [hdel, UInt64.lt_iff_toNat_lt, hn64] at hiff
          exact hiff
        · intro hf n hn
          rw [hdel, hf n.toNat (Nat.lt_succ_of_le (UInt64.le_iff_toNat_le.mp hn)),
            UInt64.lt_iff_toNat_lt]
          exact Iff.rfl
      have hzero : target.toNat + 1 = 1 ↔ target = 0 := by
        rw [← UInt64.toNat_inj]
        simp
      rw [hfaithful, decimal_range_iff (Nat.lt_of_lt_of_le (show last.toNat + 1 < 2 ^ 64 by omega)
        (by decide)) (by omega) (by omega), RangeOk, hzero]
      simp only [heq, false_or, ne_eq, hmax, not_false_eq_true, true_and]

/-! ### Transactions -/

theorem txnDoc_nil (blocks : List Block) : txnDoc x blocks [] = none := by
  rw [txnDoc, Option.map_eq_none_iff, List.find?_eq_none]
  intro doc hdoc hid
  obtain ⟨b, _, hb⟩ := List.mem_flatMap.mp hdoc
  unfold txnDocs at hb
  cases hdocs : blockToTxnCouchDocs x b with
  | error e => simp [hdocs, Except.toOption] at hb
  | ok docs =>
    have hmem : doc ∈ docs := by simpa [hdocs, Except.toOption] using hb
    exact (blockToTxnCouchDocs_new x hdocs doc hmem).1 (of_decide_eq_true hid)

variable {x} in
/-- The transaction documents of the blocks above the target are none if no ID is new there. -/
theorem txns_gone_iff {last target : UInt64}
    (hc : Contents x db blocks) (hnum : Numbered blocks last) :
    (∀ b ∈ blocks, target < b.header.number → ∀ txID doc, readDoc db.txnStore txID = some doc →
        doc.fields.lookup .blockNumber ≠ some (.string (blockNumberToKey b.header.number))) ↔
      NoNewTxns x blocks target := by
  constructor
  · intro h b hb hlt txID hid hocc
    rcases txnDoc_cases x hid fun b hb => (hc.converted b hb).2 with
      ⟨_, hno⟩ | ⟨c, hcb, i, e, code, ⟨_, hfirst⟩, _, _, hdoc⟩
    · obtain ⟨i, e, hat⟩ := hocc
      exact absurd hat (hno b hb i e)
    · refine ⟨c, hcb, ?_, i, e, hfirst.1⟩
      by_contra hgt
      exact h c hcb (UInt64.not_le.mp hgt) txID _ ((hc.txnAt txID).trans hdoc) rfl
  · intro h b hb hlt txID doc hread hfield
    rw [hc.txnAt] at hread
    have hid : txID ≠ [] := by
      rintro rfl
      rw [txnDoc_nil] at hread
      cases hread
    rcases txnDoc_cases x hid fun b hb => (hc.converted b hb).2 with
      ⟨hnone, _⟩ | ⟨c, hcb, i, e, code, ⟨⟨before, after, heq, hbefore⟩, hfirst⟩, _, _, hdoc⟩
    · exact nomatch hnone.symm.trans hread
    · rw [hread] at hdoc
      rw [Option.some.inj hdoc] at hfield
      have hkey : blockNumberToKey c.header.number = blockNumberToKey b.header.number := by
        have hstr : some (JsonValue.string (blockNumberToKey c.header.number)) =
            some (.string (blockNumberToKey b.header.number)) := hfield
        simpa using hstr
      rw [← blockNumberToKey_injective hkey] at hlt
      -- the ID occurs up to the target, and so before its first occurrence
      obtain ⟨d, hd, hle, j, e', hat⟩ := h c hcb hlt txID hid ⟨i, e, hfirst.1⟩
      have hd' : d ∈ before ++ c :: after := heq ▸ hd
      rcases List.mem_append.mp hd' with hd' | hd'
      · exact hbefore d hd' j e' hat
      · rcases List.mem_cons.mp hd' with rfl | hd'
        · exact absurd hle (UInt64.not_le.mpr hlt)
        · exact absurd (UInt64.lt_trans hlt (hnum.lt_of_append heq hd')) (UInt64.not_lt.mpr hle)

/-! ### The result -/

variable {x} in
/-- Before the rollback every block of the chain has its document, and no height was recorded. -/
theorem Contents.readDoc_of_mem (hc : Contents x db blocks)
    (hl : Linked x blocks) (hlen : blocks.length ≤ 2 ^ 64) {b : Block} (hb : b ∈ blocks) :
    ∃ body, blockToCouchDoc x b = .ok body ∧
      readDoc db.blockStore (blockNumberToKey b.header.number) = some body := by
  obtain ⟨body, hbody⟩ := (hc.converted b hb).1
  refine ⟨body, hbody, ?_⟩
  rw [hc.blockAt _ (blockNumberToKey_ne_blkMgrInfoKey _),
    blockDoc_eq_some hl hlen fun b hb => (hc.converted b hb).1]
  exact ⟨b, hb, rfl, hbody⟩

variable {x} in
theorem Contents.readDoc_preResetHeightKey
    (hc : Contents x db blocks) : readDoc db.blockStore preResetHeightKey = none := by
  rw [hc.blockAt _ (by decide), blockDoc]
  have hfind : (blocks.reverse.find? fun b =>
      blockNumberToKey b.header.number = preResetHeightKey) = none := by
    rw [List.find?_eq_none]
    intro b _ hb
    exact blockNumberToKey_ne_preResetHeightKey b.header.number (of_decide_eq_true hb)
  rw [hfind]
  rfl

/-- After any run of starts and added blocks that left the blocks from zero to `last`, a
rollback to a target up to `last` does its work if, and only if, the range of keys is the range
of numbers, no transaction ID is new above the target, and the checkpoint is saved or right
already. -/
theorem rollback_iff {ops : List Op} (hw : Meets (Op.step x) (Works x) History.start ops)
    {target last : UInt64} (hnum : Numbered (run (Op.step x) History.start ops).accepted last)
    (ht : target ≤ last) (committer : Bool) (queryLimit : Int) :
    let st := run (Op.step x) History.start ops
    let out := rollback x committer queryLimit st.sys.db target
    RolledBack x st.accepted target out.1 out.2 ↔
      RangeOk target last ∧ NoNewTxns x st.accepted target ∧
        (committer = true ∨ target = last) := by
  intro st out
  have hc : Contents x st.sys.db st.accepted := contents_run x hw
  have hcons : Consistent x st := consistent_run x ops
  have hdoc := fun {b} (hb : b ∈ st.accepted) =>
    hc.readDoc_of_mem hcons.linked hnum.length_le hb
  obtain ⟨lastBlock, hlast, hlastNum⟩ := hnum.exists_last
  obtain ⟨targetBlock, htb, htNum⟩ := hnum.exists_block ht
  obtain ⟨body, hbody, hread⟩ := hdoc htb
  obtain ⟨db', hout, htxn, hblocks, hcheckpoint⟩ := rollback_spec x hcons.readable
    hc.readDoc_preResetHeightKey hlast hbody hread committer queryLimit
  rw [htNum, hlastNum] at hout hblocks hcheckpoint
  have hout : out = (db', _) := hout
  rw [hout, ← deletes_iff_rangeOk ht, ← txns_gone_iff hc hnum, ← htxn]
  have hinfo : ¬ Deletes target last target → loadCurrentInfo x db'.blockStore =
      .ok (some (CdbBlockStore.checkpointOf x
        (if committer then targetBlock.header else lastBlock.header))) := fun hd =>
    loadCurrentInfo_of_doc x
      (by simp [CdbBlockStore.checkpointOf, x.length_blockHeaderHash]) (hcheckpoint hd)
  constructor
  · rintro ⟨hok, hgone, htxns, hkept, i, hload, _, hi⟩
    have hd : ¬ Deletes target last target := by
      intro hd
      rw [if_pos hd] at hok
      cases hok
    refine ⟨fun n hn => ?_, htxns, ?_⟩
    · obtain ⟨b, hb, rfl⟩ := hnum.exists_block hn
      obtain ⟨body', _, hread'⟩ := hdoc hb
      have hleft := hblocks b.header.number
      constructor
      · intro hdel
        by_contra hle
        rw [if_pos hdel] at hleft
        have := hkept b hb (UInt64.not_lt.mp hle)
        rw [retrieveBlockByNumber, hleft] at this
        cases this
      · intro hlt
        by_contra hdel
        rw [if_neg hdel, hgone b hb hlt, hread'] at hleft
        cases hleft
    · rw [hinfo hd] at hload
      obtain rfl := Option.some.inj (Except.ok.inj hload)
      cases committer with
      | true => exact Or.inl rfl
      | false => exact Or.inr (hi.symm.trans hlastNum)
  · rintro ⟨hrange, htxns, hsaved⟩
    have hd : ¬ Deletes target last target := fun hd =>
      UInt64.lt_irrefl target ((hrange target ht).mp hd)
    refine ⟨if_neg hd, fun b hb hlt => ?_, htxns, fun b hb hle => ?_, _, hinfo hd, rfl, ?_⟩
    · rw [hblocks, if_pos ((hrange _ (hnum.number_le hb)).mpr hlt)]
    · obtain ⟨body', hbody', hread'⟩ := hdoc hb
      refine retrieveBlockByNumber_of_doc x hbody' ?_
      rw [hblocks, if_neg fun hdel =>
        UInt64.not_lt.mpr hle ((hrange _ (hnum.number_le hb)).mp hdel), hread']
    · rcases hsaved with rfl | rfl
      · exact htNum
      · cases committer with
        | true => exact htNum
        | false => exact hlastNum

end

def emptyBlocks : Block → Nat → List Op
  | _, 0 => []
  | b, n + 1 => .addBlock (plainNext b [] []) none :: emptyBlocks (plainNext b [] []) n

def emptyChain (last : Nat) : List Op :=
  let b₀ := plainBlock 0 [] [] []
  .reopen true ⟨0, 0⟩ none :: .addBlock b₀ none :: emptyBlocks b₀ last

/-- Back from block 2 to block 1. -/
theorem rollback_iff_two :
    let st := run (Op.step plainExternals) History.start (emptyChain 2)
    let out := rollback plainExternals true 10 st.sys.db 1
    RolledBack plainExternals st.accepted 1 out.1 out.2 := by
  have hdata : ∀ b ∈ (run (Op.step plainExternals) History.start (emptyChain 2)).accepted,
      b.data = [] := by decide +kernel
  refine (rollback_iff plainExternals (by decide +kernel) (by unfold Numbered; decide +kernel)
    (show (1 : UInt64) ≤ 2 by decide) true 10).mpr
    ⟨Or.inr ⟨by decide, Or.inl (by decide)⟩, ?_, Or.inl rfl⟩
  rintro b hb _ _ _ ⟨i, e, bytes, hat, _⟩
  rw [hdata b hb] at hat
  cases hat

/-- Back from block 10 to block 8: no key is between those of 9 and 11, and both blocks stay. -/
theorem rollback_eleven_blocks :
    let st := run (Op.step plainExternals) History.start (emptyChain 10)
    let out := rollback plainExternals true 10 st.sys.db 8
    Numbered st.accepted 10 ∧ out.2 = .ok () ∧
      ¬ RolledBack plainExternals st.accepted 8 out.1 out.2 := by
  refine ⟨by unfold Numbered; decide +kernel, by decide +kernel, fun h => ?_⟩
  have hstays : ∃ b ∈ (run (Op.step plainExternals) History.start (emptyChain 10)).accepted,
      8 < b.header.number ∧
        readDoc (rollback plainExternals true 10
          (run (Op.step plainExternals) History.start (emptyChain 10)).sys.db 8).1.blockStore
          (blockNumberToKey b.header.number) ≠ none := by decide +kernel
  obtain ⟨b, hb, hlt, hread⟩ := hstays
  exact hread (h.blocks_gone b hb hlt)

end FabricPeerExt.Blkstorage
