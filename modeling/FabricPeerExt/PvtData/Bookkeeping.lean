/-
FabricPeerExt.PvtData.Bookkeeping — the list of old blocks that reconciliation has updated. A flag
in memory says whether there is a list; it is set only when the store is opened.
-/
import FabricPeerExt.PvtData.ReadTheorems

namespace FabricPeerExt.PvtData

open Lib

/-! ## §1 Model -/

section
variable (x : Externals) (btlPolicy : BtlPolicy) (conf : Conf)

/-- The run has added data to block `b` by reconciliation, and the list was not reset since. -/
def ChangedSinceReset (ops : List Op) (b : UInt64) : Prop :=
  ∃ done blocksPvtData unreconciled rest,
    ops = done ++ .commitPvtDataOfOldBlocks blocksPvtData unreconciled :: rest ∧
    .resetLastUpdatedOldBlocksList ∉ rest ∧
    ∃ k v, k.blkNum = b ∧ Writes x btlPolicy conf (Sys.after x btlPolicy conf done) k v
      (.commitPvtDataOfOldBlocks blocksPvtData unreconciled)

/-- The flag and the list are right. -/
structure Bookkept (ops : List Op) (s : Store) : Prop where
  flag : ∃ l, getLastUpdatedOldBlocksList x s.missingKeysIndexDB = .ok l ∧
    (s.isLastUpdatedOldBlocksSet = true ↔ l ≠ [])
  decodes : ∀ blks : List UInt64, blks.length < 2 ^ 63 →
    s.missingKeysIndexDB.lookup lastUpdatedOldBlocksKey =
      some (encodeLastUpdatedOldBlocksList x blks) →
    getLastUpdatedOldBlocksList x s.missingKeysIndexDB =
      .ok (blks.insertionSort fun a b => a ≤ b)
  data : ∃ m, s.getLastUpdatedOldBlocksPvtData x btlPolicy conf = .ok m ∧
    (∀ b, b ∈ m ↔ ChangedSinceReset x btlPolicy conf ops b) ∧
    ∀ b pvtData, m.lookup b = some pvtData →
      s.getPvtDataByBlockNum x btlPolicy conf b none = .ok pvtData

/-- The operation is a call of `CommitPvtDataOfOldBlocks` that names a block and takes
effect: it gets the lock, no list is waiting, and its updates can be built. -/
def TakesBlocks (sys : Sys) : Op → Prop
  | .commitPvtDataOfOldBlocks blocksPvtData unreconciled =>
    blocksPvtData.keys ≠ [] ∧ sys.proc.locked = false ∧
      sys.store.isLastUpdatedOldBlocksSet = false ∧
      ∃ entries updates,
        Store.oldBlockEntries x btlPolicy sys.store blocksPvtData unreconciled = .ok entries ∧
        constructDBUpdateBatch x (Store.preparePvtDataDoc x sys.store) entries = .ok updates
  | _ => False

def GoSized : Op → Prop
  | .commitPvtDataOfOldBlocks blocksPvtData _ => blocksPvtData.keys.length < 2 ^ 63
  | _ => True

def SaneSized (sys : Sys) (op : Op) : Prop := Sane sys op ∧ GoSized op

end

section
variable {x : Externals} {btlPolicy : BtlPolicy} {conf : Conf}

/-! ## §2 The list -/

def NoList (x : Externals) (kv : Kv) : Prop :=
  ∀ bs, kv.lookup lastUpdatedOldBlocksKey = some bs →
    bs = encodeLastUpdatedOldBlocksList x []

theorem NoList.read {kv : Kv} (h : NoList x kv) : getLastUpdatedOldBlocksList x kv = .ok [] := by
  cases hl : kv.lookup lastUpdatedOldBlocksKey with
  | none => rw [getLastUpdatedOldBlocksList, hl]
  | some bs =>
    rw [h bs hl] at hl
    obtain ⟨l, hread, hsorted⟩ := getLastUpdatedOldBlocksList_encode hl
    rw [hread, hsorted (by decide)]
    rfl

/-- The list is not in the groups of the processor. -/
theorem ProcOp.ne_list {last : UInt64} {op : BatchOp} (h : ProcOp x last op) :
    op.key ≠ lastUpdatedOldBlocksKey := by
  cases h with
  | delete k => exact (notMissingKey_lastUpdated.ne_inelg x k).symm
  | put _ _ => exact (notMissingKey_lastUpdated.ne_prio x _).symm
  | event hhead =>
    rintro hkey
    rw [BatchOp.key] at hkey
    rw [hkey] at hhead
    exact absurd (Option.some.inj hhead) (by decide)

variable {ops : List Op} {op : Op} {s s' : Store} {sys : Sys}

/-- Only a reconciliation writes the list. -/
theorem StoreChange.noList (hch : StoreChange x btlPolicy conf op s s')
    (hc : CounterOk s) (h : NoList x s.missingKeysIndexDB)
    (hop : ∀ blocksPvtData unreconciled,
      op = .commitPvtDataOfOldBlocks blocksPvtData unreconciled →
        s' = s ∨ blocksPvtData.keys = []) :
    NoList x s'.missingKeysIndexDB := by
  intro bs hl
  cases hch with
  | unchanged => exact h bs hl
  | marker hsame => exact h bs ((hsame _ (by decide)).symm.trans hl)
  | committed hcom =>
    rw [hcom.lookup_index notMissingKey_lastUpdated (by decide)] at hl
    exact h bs hl
  | reconciled hrec =>
    rcases hop _ _ rfl with rfl | hempty
    · exact h bs hl
    · rw [hrec.lookup_lastUpdated, hempty] at hl
      exact (Option.some.inj hl).symm
  | purged _ hp => exact h bs ((hp.index _ bs).mp hl).1
  | @event b _ val _ _ =>
    have hput : (Batch.apply [.put (encodeCollElgKey x b) val] s.missingKeysIndexDB).lookup
        lastUpdatedOldBlocksKey = s.missingKeysIndexDB.lookup lastUpdatedOldBlocksKey := by
      refine Batch.lookup_apply_of_notMem (fun op hop => ?_) _
      obtain rfl := List.mem_singleton.mp hop
      exact fun hkey => absurd (List.cons.inj hkey).1 (by decide)
    exact h bs (hput.symm.trans hl)
  | processor hbatch =>
    have hkeep := Batch.lookup_apply_of_notMem (fun op hop => (hbatch op hop).ne_list)
      s.missingKeysIndexDB
    exact h bs (hkeep.symm.trans hl)
  | reset =>
    have hnone : s.resetLastUpdatedOldBlocksList.missingKeysIndexDB.lookup
        lastUpdatedOldBlocksKey = none := AList.lookup_erase _ _
    cases hnone.symm.trans hl
  | reopened hre =>
    rw [(Store.reopen_ok hc hre).2.1] at hl
    exact h bs hl

/-- The flag of a store that is opened tells whether there is a list. -/
theorem Store.reopen_flag (h : NoList x s.missingKeysIndexDB)
    (hre : s.reopen x conf = .ok s') : s'.isLastUpdatedOldBlocksSet = false := by
  unfold reopen openStore at hre
  split at hre
  · split at hre
    · cases hre
    · rw [h.read] at hre
      obtain rfl := Except.ok.inj hre
      rfl
  · split at hre
    · cases hre
    · obtain rfl := Except.ok.inj hre
      rfl

/-- Nothing but opening the store sets the flag. -/
theorem StoreChange.flag (hch : StoreChange x btlPolicy conf op s s')
    (h : NoList x s.missingKeysIndexDB) (hs : s.isLastUpdatedOldBlocksSet = false) :
    s'.isLastUpdatedOldBlocksSet = false := by
  cases hch with
  | committed hcom => rw [hcom.eq]; exact hs
  | reconciled hrec => rw [hrec.eq]; exact hs
  | purged _ hp => rw [hp.isSet]; exact hs
  | reset => rfl
  | reopened hre => exact Store.reopen_flag h hre
  | _ => exact hs

/-! ## §3 Runs -/

/-- A call without effect, or one that names no block. -/
theorem not_takesBlocks {blocksPvtData : GoMap UInt64 (List TxPvtData)}
    {unreconciled : MissingPvtDataInfo}
    (h : ¬ TakesBlocks x btlPolicy sys (.commitPvtDataOfOldBlocks blocksPvtData unreconciled)) :
    (sys.step x btlPolicy conf (.commitPvtDataOfOldBlocks blocksPvtData unreconciled)).store =
      sys.store ∨ blocksPvtData.keys = [] := by
  by_cases hkeys : blocksPvtData.keys = []
  · exact .inr hkeys
  left
  simp only [Sys.step]
  split
  · rfl
  next hlocked =>
    cases hc : sys.store.commitPvtDataOfOldBlocks x btlPolicy blocksPvtData unreconciled with
    | mk s' r =>
      rcases Store.commitPvtDataOfOldBlocks_cases hc with ⟨_, rfl⟩ | ⟨_, entries, docs, batch, hrec⟩
      · rfl
      · exact absurd ⟨hkeys, Bool.eq_false_iff.mpr hlocked, hrec.notSet, entries, (docs, batch),
          hrec.entries_eq, hrec.construct⟩ h

variable (conf) in
/-- What a call that takes blocks leaves. -/
theorem reconciled_of_takesBlocks {blocksPvtData : GoMap UInt64 (List TxPvtData)}
    {unreconciled : MissingPvtDataInfo}
    (h : TakesBlocks x btlPolicy sys (.commitPvtDataOfOldBlocks blocksPvtData unreconciled)) :
    blocksPvtData.keys ≠ [] ∧ ∃ entries docs batch, Store.Reconciled x btlPolicy sys.store
      (sys.step x btlPolicy conf (.commitPvtDataOfOldBlocks blocksPvtData unreconciled)).store
      blocksPvtData unreconciled entries docs batch := by
  obtain ⟨hkeys, hlocked, hset, entries, ⟨docs, batch⟩, hentries, hconstruct⟩ := h
  refine ⟨hkeys, entries, docs, batch, hset, hentries, hconstruct, ?_⟩
  simp only [Sys.step, hlocked, Store.commitPvtDataOfOldBlocks, hset, hentries, hconstruct,
    Bool.false_eq_true, if_false]

/-- The invariant of a run without calls that take blocks. -/
theorem noList_after (h : Meets (Sys.step x btlPolicy conf) Sane Sys.init ops)
    (hno : Meets (Sys.step x btlPolicy conf) (fun sys op => ¬ TakesBlocks x btlPolicy sys op)
      Sys.init ops) :
    NoList x (Sys.after x btlPolicy conf ops).store.missingKeysIndexDB ∧
      (Sys.after x btlPolicy conf ops).store.isLastUpdatedOldBlocksSet = false := by
  have hboth : Meets (Sys.step x btlPolicy conf)
      (fun sys op => Sane sys op ∧ ¬ TakesBlocks x btlPolicy sys op) Sys.init ops :=
    meets_iff.mpr fun done i rest heq =>
      ⟨meets_iff.mp h done i rest heq, meets_iff.mp hno done i rest heq⟩
  have hinv := run_invariant (P := fun sys => Sound x btlPolicy sys ∧
    NoList x sys.store.missingKeysIndexDB ∧ sys.store.isLastUpdatedOldBlocksSet = false)
    (fun sys op hsys hop => ?_) ⟨sound_init, nofun, rfl⟩ hboth
  · exact hinv.2
  · obtain ⟨hsound, hlist, hflag⟩ := hsys
    have hch : StoreChange x btlPolicy conf op sys.store (sys.step x btlPolicy conf op).store :=
      hsound.change op
    refine ⟨hsound.step hop.1, hch.noList hsound.db.counter hlist ?_, hch.flag hlist hflag⟩
    rintro blocksPvtData unreconciled rfl
    exact not_takesBlocks hop.2

/-- A store without a list, in a run that has not added data to old blocks. -/
theorem bookkept_of_noList (hlist : NoList x s.missingKeysIndexDB)
    (hflag : s.isLastUpdatedOldBlocksSet = false)
    (hno : ∀ b, ¬ ChangedSinceReset x btlPolicy conf ops b) : Bookkept x btlPolicy conf ops s where
  flag := ⟨[], hlist.read, by simp [hflag]⟩
  decodes blks hlen hl := by
    obtain ⟨l, hread, hsorted⟩ := getLastUpdatedOldBlocksList_encode hl
    rw [hread, hsorted hlen]
  data := by
    refine ⟨∅, by rw [Store.getLastUpdatedOldBlocksPvtData, hflag]; rfl, fun b => ?_, ?_⟩
    · exact iff_of_false (AList.notMem_empty b) (hno b)
    · intro b pvtData hl
      cases hl

/-- Data is only added by calls that take blocks. -/
theorem not_changedSinceReset
    (hno : Meets (Sys.step x btlPolicy conf) (fun sys op => ¬ TakesBlocks x btlPolicy sys op)
      Sys.init ops) (b : UInt64) : ¬ ChangedSinceReset x btlPolicy conf ops b := by
  rintro ⟨done, blocksPvtData, unreconciled, rest, heq, -, k, v, -, hfree, hok, hmem, -⟩
  refine meets_iff.mp hno done _ rest heq ?_
  cases hc : (Sys.after x btlPolicy conf done).store.commitPvtDataOfOldBlocks x btlPolicy
      blocksPvtData unreconciled with
  | mk s' r =>
    rcases Store.commitPvtDataOfOldBlocks_cases hc with ⟨⟨e, herr⟩, -⟩ |
      ⟨-, entries, docs, batch, hrec⟩
    · rw [hc, herr] at hok
      cases hok
    · refine ⟨fun hkeys => ?_, hfree, hrec.notSet, entries, (docs, batch), hrec.entries_eq,
        hrec.construct⟩
      obtain ⟨b', pvtData, hl, -⟩ := Store.mem_dataEntriesOfBlocks.mp hmem
      have hb' : b' ∈ blocksPvtData.keys := by
        rw [← AList.mem_keys, ← AList.lookup_isSome, hl]
        rfl
      rw [hkeys] at hb'
      cases hb'

/-- After a call that takes blocks there is a list, and the flag says that there is none. -/
theorem not_bookkept_of_takesBlocks (h : TakesBlocks x btlPolicy sys op) (hsize : GoSized op) :
    ¬ Bookkept x btlPolicy conf ops (sys.step x btlPolicy conf op).store := by
  cases op with
  | commitPvtDataOfOldBlocks blocksPvtData unreconciled =>
    intro hb
    obtain ⟨hkeys, entries, docs, batch, hrec⟩ := reconciled_of_takesBlocks conf h
    obtain ⟨l, hread, hiff⟩ := hb.flag
    rw [hb.decodes _ hsize hrec.lookup_lastUpdated] at hread
    have hflag : ¬ l ≠ [] := by
      rw [← hiff, hrec.eq]
      simp [hrec.notSet]
    refine hkeys (List.length_eq_zero_iff.mp ?_)
    rw [← List.length_insertionSort (fun a b => a ≤ b), Except.ok.inj hread, not_not.mp hflag]
    rfl
  | _ => exact h.elim

/-- The bookkeeping is right in every state of a run exactly if no call takes blocks. -/
theorem bookkept_iff {ops : List Op}
    (h : Meets (Sys.step x btlPolicy conf) SaneSized Sys.init ops) :
    (∀ done rest, ops = done ++ rest →
        Bookkept x btlPolicy conf done (Sys.after x btlPolicy conf done).store) ↔
      Meets (Sys.step x btlPolicy conf) (fun sys op => ¬ TakesBlocks x btlPolicy sys op)
        Sys.init ops := by
  constructor
  · intro hall
    refine meets_iff.mpr fun done op rest heq htakes => ?_
    have hsize := (meets_iff.mp h done op rest heq).2
    have hafter : Sys.after x btlPolicy conf (done ++ [op]) =
        (Sys.after x btlPolicy conf done).step x btlPolicy conf op := run_append _ _ _ _
    refine not_bookkept_of_takesBlocks htakes hsize (hafter ▸ hall (done ++ [op]) rest ?_)
    rw [heq, List.append_assoc]
    rfl
  · rintro hno done rest rfl
    have hsane := (Meets.append.mp h).1.mono fun _ _ hop => hop.1
    have hdone := (Meets.append.mp hno).1
    obtain ⟨hlist, hflag⟩ := noList_after hsane hdone
    exact bookkept_of_noList hlist hflag (not_changedSinceReset hdone)

end

def nothingFound : List Op :=
  [.commit 0 [] (GoMap.insertAll ∅ [(0, [⟨[110], [100], true⟩])]),
    .commitPvtDataOfOldBlocks ∅ ∅, .resetLastUpdatedOldBlocksList]

/-- A call that has no data for its block. -/
theorem bookkept_nothingFound :
    Bookkept plainExternals (lifetimePolicy fun _ _ => 0) plainConf nothingFound
      (Sys.after plainExternals (lifetimePolicy fun _ _ => 0) plainConf nothingFound).store := by
  refine (bookkept_iff ?_).mpr ?_ nothingFound [] (List.append_nil _).symm
  · exact ⟨⟨by decide, trivial⟩, ⟨by decide, Nat.two_pow_pos 63⟩, ⟨trivial, trivial⟩, trivial⟩
  · exact ⟨id, fun h => h.1 rfl, id, trivial⟩

/-- The first transaction of block 0 is reconciled: `GetLastUpdatedOldBlocksPvtData` returns
nothing, although block 0 has changed and is listed. -/
theorem not_bookkept_reconciled :
    Meets (Sys.step plainExternals (lifetimePolicy fun _ _ => 0) plainConf) SaneSteady Sys.init
      writeAndReconcile ∧
    (∃ s, s = (Sys.after plainExternals (lifetimePolicy fun _ _ => 0) plainConf
        writeAndReconcile).store ∧
      getLastUpdatedOldBlocksList plainExternals s.missingKeysIndexDB = .ok [0] ∧
      s.getLastUpdatedOldBlocksPvtData plainExternals (lifetimePolicy fun _ _ => 0) plainConf =
        .ok ∅ ∧
      ¬ Bookkept plainExternals (lifetimePolicy fun _ _ => 0) plainConf writeAndReconcile s) := by
  refine ⟨meets_writeAndReconcile, _, rfl, ?_, ?_, fun h => ?_⟩
  · decide +kernel
  · rfl
  · obtain ⟨l, hread, hiff⟩ := h.flag
    have hlist : getLastUpdatedOldBlocksList plainExternals (Sys.after plainExternals
        (lifetimePolicy fun _ _ => 0) plainConf writeAndReconcile).store.missingKeysIndexDB =
        .ok [0] := by
      decide +kernel
    rw [hlist] at hread
    exact absurd (hiff.mpr (Except.ok.inj hread ▸ List.cons_ne_nil _ _)) (by decide +kernel)

end FabricPeerExt.PvtData
