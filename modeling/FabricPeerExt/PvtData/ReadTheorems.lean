/-
FabricPeerExt.PvtData.ReadTheorems — reading a block back (`getPvtDataByBlockNum_readback`).
-/
import FabricPeerExt.PvtData.AssemblerTheorems
import FabricPeerExt.PvtData.History
import FabricPeerExt.PvtData.Instance

namespace FabricPeerExt.PvtData

open Lib

section
variable {x : Externals} {btlPolicy : BtlPolicy} {conf : Conf}

/-! ## §1 One state -/

structure BlockEntries (x : Externals) (s : Store) (b : UInt64)
    (es : List (DataKey × CollectionPvtReadWriteSet)) : Prop where
  sorted : (es.map txGrouping.emit).Pairwise Before
  key : ∀ e ∈ es, e.1.blkNum = b ∧ NulFree e.1.ns ∧ e.2.collectionName = e.1.coll
  mem_iff : ∀ {k v}, k.blkNum = b → NulFree k.ns → ((k, v) ∈ es ↔ s.dataAt x k = some v)

def InRange (s : Store) (b : UInt64) : Prop := s.empty = false ∧ b ≤ s.lastCommittedBlock

theorem checkLastCommittedBlock_ok {s : Store} (hcomm : conf.committer = true) {b : UInt64}
    (hb : InRange s b) : Store.checkLastCommittedBlock conf s b = .ok () := by
  rw [Store.checkLastCommittedBlock, if_pos hcomm, Store.checkRange, hb.1, if_neg (by decide),
    if_neg (UInt64.not_lt.mpr hb.2)]

/-- Reading a block in one state. -/
theorem getPvtDataByBlockNum_eq {s : Store} (hdb : DbSound x btlPolicy s)
    (hcomm : conf.committer = true) {b : UInt64} (hb : InRange s b) (filter : PvtNsCollFilter) :
    ∃ es, BlockEntries x s b es ∧ s.getPvtDataByBlockNum x btlPolicy conf b filter =
      .ok (txGrouping.pushAll []
        (es.filter fun e => shown btlPolicy filter s.lastCommittedBlock e.1)) := by
  unfold Store.getPvtDataByBlockNum
  simp only [checkLastCommittedBlock_ok hcomm hb]
  rcases Store.lookup_cases hdb.dbOk b with hl | ⟨rev, d, hl, hd⟩
  · refine ⟨[], ⟨List.Pairwise.nil, nofun, fun {k v} hkb _ => ?_⟩, ?_⟩
    · rw [Store.dataAt, hkb, blockDoc, hl]
      simp
    · rw [Store.retrieveBlockPvtData_of_none hl]
      rfl
  · obtain ⟨es, hes⟩ := exists_docEntries hd
    have hmem : ∀ {k v}, k.blkNum = b → NulFree k.ns →
        ((k, v) ∈ es ↔ s.dataAt x k = some v) := by
      intro k v hkb hk
      rw [hes.mem_iff hk, Store.dataAt, hkb, blockDoc_of_lookup hl, Option.bind_some]
    refine ⟨es, ⟨hes.sorted, fun e he => ?_, hmem⟩, ?_⟩
    · obtain ⟨hkb, hk, hcoll, _⟩ := hes.entry e he
      exact ⟨hkb, hk, hcoll⟩
    · rw [Store.retrieveBlockPvtData_of_some hl]
      refine assemble_eq hes fun e he => ?_
      obtain ⟨hkb, hk, _⟩ := hes.entry e he
      exact hdb.policy hk ((hmem hkb hk).mp he)

/-! ## §2 Runs -/

/-- A peer that does not commit stays without blocks. -/
theorem StoreChange.empty_of_not_committer {op : Op} {s s' : Store}
    (hch : StoreChange x btlPolicy conf op s s') (hno : conf.committer ≠ true)
    (hc : CounterOk s) (h : s.empty = true ∧ s.lastCommittedBlock = 0) :
    s'.empty = true ∧ s'.lastCommittedBlock = 0 := by
  cases hch with
  | committed hcom => exact absurd hcom.committer hno
  | reconciled hrec =>
    rw [hrec.eq]
    exact h
  | purged _ hp =>
    rw [hp.empty, hp.lastCommittedBlock]
    exact h
  | reopened hre =>
    obtain ⟨_, _, hlast, hempty⟩ := Store.reopen_ok hc hre
    rw [hempty, hlast, h.2]
    exact ⟨rfl, rfl⟩
  | _ => exact h

/-- Only a committing peer has blocks. -/
theorem committer_of_block {ops : List Op}
    (h : Meets (Sys.step x btlPolicy conf) Sane Sys.init ops)
    (hne : (Sys.after x btlPolicy conf ops).store.empty = false) : conf.committer = true := by
  by_contra hno
  have hall := run_induction (P := fun _ sys => sys.store.empty = true ∧
    sys.store.lastCommittedBlock = 0) ⟨rfl, rfl⟩ (fun ops op hops _ ih => ?_) h
  · cases hne.symm.trans hall.1
  · have hsound : Sound x btlPolicy (Sys.after x btlPolicy conf ops) := sound_after hops
    exact (hsound.change op).empty_of_not_committer hno hsound.db.counter ih

def writeSets (result : List RetrievedTxPvtData) :
    List (UInt64 × GoString × CollectionPvtReadWriteSet) :=
  result.flatMap RetrievedTxPvtData.sets

/-- An entry of a block is shown exactly if it passes the filter and has not expired. -/
theorem shown_iff {filter : PvtNsCollFilter} {last : UInt64} {k : DataKey} :
    shown btlPolicy filter last k = true ↔
      passesFilter k filter = true ∧ isExpired btlPolicy k.toNsCollBlk last = .ok false := by
  unfold shown
  rw [Bool.and_eq_true, and_comm]
  refine and_congr_right fun _ => ?_
  cases isExpired btlPolicy k.toNsCollBlk last with
  | error e => simp
  | ok expired => simp

/-- After any steady run in which no key gets two different write sets, a block that has
been committed is read back: the write sets stored for it that pass the filter and have
not expired, each once, by transaction, then by namespace, then by collection, with
nothing split. -/
theorem getPvtDataByBlockNum_readback {ops : List Op}
    (hops : Meets (Sys.step x btlPolicy conf) SaneSteady Sys.init ops)
    (hone : ∀ k v v', Stored x btlPolicy conf ops k v → Stored x btlPolicy conf ops k v' → v = v')
    {b : UInt64} (hb : InRange (Sys.after x btlPolicy conf ops).store b)
    (filter : PvtNsCollFilter) :
    ∃ result, (Sys.after x btlPolicy conf ops).store.getPvtDataByBlockNum x btlPolicy conf b
        filter = .ok result ∧
      Grouped result ∧ (writeSets result).Nodup ∧
      ∀ tx ns v, (tx, ns, v) ∈ writeSets result ↔
        Stored x btlPolicy conf ops ⟨⟨ns, v.collectionName, b⟩, tx⟩ v ∧
        passesFilter ⟨⟨ns, v.collectionName, b⟩, tx⟩ filter = true ∧
        isExpired btlPolicy ⟨ns, v.collectionName, b⟩
          (Sys.after x btlPolicy conf ops).store.lastCommittedBlock = .ok false := by
  obtain ⟨hsound, _⟩ := fresh_after hops
  have hcomm := committer_of_block (hops.mono fun _ _ hok => hok.1) hb.1
  obtain ⟨es, hes, heq⟩ := getPvtDataByBlockNum_eq hsound.db hcomm hb filter
  set last := (Sys.after x btlPolicy conf ops).store.lastCommittedBlock
  set shownEs := es.filter fun e => shown btlPolicy filter last e.1 with hshown
  have hsorted : (shownEs.map txGrouping.emit).Pairwise Before :=
    hes.sorted.sublist (List.filter_sublist.map _)
  have hsets : writeSets (txGrouping.pushAll [] shownEs) = shownEs.map txGrouping.emit :=
    txGrouping.flatMap_pushAll [] shownEs
  refine ⟨_, heq, grouped_pushAll hsorted, ?_, fun tx ns v => ?_⟩
  · rw [hsets]
    exact hsorted.imp Before.ne
  · rw [hsets, List.mem_map, ← shown_iff]
    constructor
    · rintro ⟨⟨k, v'⟩, he, heq'⟩
      obtain ⟨he, hsh⟩ := List.mem_filter.mp he
      obtain ⟨hkb, hk, hcoll⟩ := hes.key _ he
      obtain ⟨rfl, hrest⟩ := Prod.mk.inj heq'
      obtain ⟨rfl, rfl⟩ := Prod.mk.inj hrest
      have hkey : k = ⟨⟨k.ns, v'.collectionName, b⟩, k.txNum⟩ := by
        rw [← hkb, hcoll]
      rw [← hkey]
      exact ⟨(stored_after hops hk).stored ((hes.mem_iff hkb hk).mp he), hsh⟩
    · rintro ⟨hst, hsh⟩
      obtain ⟨hk, _⟩ := hst.key hops
      refine ⟨(⟨⟨ns, v.collectionName, b⟩, tx⟩, v), List.mem_filter.mpr ⟨?_, hsh⟩, rfl⟩
      rcases (stored_after hops hk).there hst with ⟨v', hv'⟩ | ⟨e, hle, hexp⟩
      · rw [← hone _ _ _ hst ((stored_after hops hk).stored hv')] at hv'
        exact (hes.mem_iff rfl hk).mpr hv'
      · -- it has not expired
        have hex := (shown_iff.mp hsh).2
        simp only [isExpired, hexp, Except.ok.injEq, decide_eq_false_iff_not] at hex
        exact absurd hle hex

def oneWrite (tx : UInt64) (coll : GoString) : List TxPvtData :=
  [⟨tx, ⟨0, [⟨[110], [⟨coll, [1]⟩]⟩]⟩⟩]

def writeAndReconcile : List Op :=
  [.commit 0 (oneWrite 1 [99]) (GoMap.insertAll ∅ [(0, [⟨[110], [100], true⟩])]),
    .commitPvtDataOfOldBlocks (GoMap.insertAll ∅ [(0, oneWrite 0 [100])]) ∅]

theorem meets_writeAndReconcile :
    Meets (Sys.step plainExternals (lifetimePolicy fun _ _ => 0) plainConf) SaneSteady Sys.init
      writeAndReconcile := by
  decide +kernel

/-- What is stored, once in each of the two ways. -/
theorem stored_writeAndReconcile {k : DataKey} {v : CollectionPvtReadWriteSet} :
    Stored plainExternals (lifetimePolicy fun _ _ => 0) plainConf writeAndReconcile k v ↔
      (k = ⟨⟨[110], [99], 0⟩, 1⟩ ∧ v = ⟨[99], [1]⟩) ∨
        (k = ⟨⟨[110], [100], 0⟩, 0⟩ ∧ v = ⟨[100], [1]⟩) := by
  have hcommit : (⟨k, v⟩ : DataEntry) ∈ prepareDataEntries 0 (oneWrite 1 [99]) ↔
      k = ⟨⟨[110], [99], 0⟩, 1⟩ ∧ v = ⟨[99], [1]⟩ := by
    simp [prepareDataEntries, oneWrite]
  have hrec : (⟨k, v⟩ : DataEntry) ∈
      dataEntriesOfBlocks (GoMap.insertAll ∅ [(0, oneWrite 0 [100])]) ↔
      k = ⟨⟨[110], [100], 0⟩, 0⟩ ∧ v = ⟨[100], [1]⟩ := by
    have hlist : dataEntriesOfBlocks (GoMap.insertAll ∅ [(0, oneWrite 0 [100])]) =
        [⟨⟨⟨[110], [100], 0⟩, 0⟩, ⟨[100], [1]⟩⟩] := by
      decide +kernel
    simp [hlist]
  rw [← hcommit, ← hrec]
  constructor
  · rintro (⟨_, hmem⟩ | ⟨_, _, hmem, _⟩ | hno)
    · exact .inl hmem
    · exact .inr hmem
    · exact hno.elim
  · rintro (hmem | hmem)
    · exact .inl ⟨by decide +kernel, hmem⟩
    · exact .inr (.inl ⟨rfl, by decide +kernel, hmem, .inl rfl⟩)

/-- A write set that came by reconciliation. -/
theorem readback_of_reconciled :
    let s := (Sys.after plainExternals (lifetimePolicy fun _ _ => 0) plainConf
      writeAndReconcile).store
    ∃ result, s.getPvtDataByBlockNum plainExternals (lifetimePolicy fun _ _ => 0) plainConf 0
        none = .ok result ∧ Grouped result ∧ (0, [110], ⟨[100], [1]⟩) ∈ writeSets result := by
  intro s
  have hone : ∀ k v v', Stored plainExternals (lifetimePolicy fun _ _ => 0) plainConf
      writeAndReconcile k v → Stored plainExternals (lifetimePolicy fun _ _ => 0) plainConf
      writeAndReconcile k v' → v = v' := by
    intro k v v' hv hv'
    rw [stored_writeAndReconcile] at hv hv'
    rcases hv with ⟨rfl, rfl⟩ | ⟨rfl, rfl⟩ <;> simp_all
  have hrange : InRange s 0 := by
    unfold InRange
    decide +kernel
  obtain ⟨result, hget, hgrouped, _, hmem⟩ := getPvtDataByBlockNum_readback
    meets_writeAndReconcile hone hrange none
  refine ⟨result, hget, hgrouped, (hmem 0 [110] _).mpr ⟨?_, rfl, ?_⟩⟩
  · exact stored_writeAndReconcile.mpr (.inr ⟨rfl, rfl⟩)
  · decide +kernel

end

end FabricPeerExt.PvtData
