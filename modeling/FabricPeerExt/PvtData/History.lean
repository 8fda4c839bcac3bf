/-
FabricPeerExt.PvtData.History — the data of the store, over a whole run: `stored_after`.
-/
import FabricPeerExt.PvtData.Sound

namespace FabricPeerExt.PvtData

open Lib

section
variable {x : Externals} {btlPolicy : BtlPolicy} {conf : Conf}

/-! ## §1 Steady runs -/

/-- An operation that does not make the store forget block 0, nor reconcile anything
before it. -/
def Steady (sys : Sys) : Op → Prop
  | .commitPvtDataOfOldBlocks blocksPvtData _ =>
    ∀ b ∈ blocksPvtData.keys, sys.store.empty = false
  | .reopen => sys.store.empty = true ∨ sys.store.lastCommittedBlock ≠ 0
  | _ => True

instance (sys : Sys) : ∀ op, Decidable (Steady sys op)
  | .commitPvtDataOfOldBlocks blocksPvtData _ =>
    List.decidableBAll (fun _ => sys.store.empty = false) blocksPvtData.keys
  | .reopen => inferInstanceAs (Decidable (_ ∨ _))
  | .commit .. | .purge _ | .processCollsEligibilityEnabled .. | .procStart | .procStep
  | .procWake | .resetLastUpdatedOldBlocksList => inferInstanceAs (Decidable True)

def Fresh (s : Store) : Prop := s.empty = true → ∀ b, blockDoc s.db b = none

variable {ops : List Op} {op : Op} {s' : Store} {n : UInt64}

theorem Fresh.congr {s : Store} (h : Fresh s) (hdb : s'.db = s.db)
    (hempty : s'.empty = true → s.empty = true) : Fresh s' := by
  intro he b
  rw [hdb]
  exact h (hempty he) b

variable {sys : Sys} {k : DataKey}

theorem Fresh.change (h : Fresh sys.store)
    (hdb : DbSound x btlPolicy sys.store) (hsane : Sane sys op) (hsteady : Steady sys op)
    (hch : StoreChange x btlPolicy conf op sys.store s') : Fresh s' := by
  cases hch with
  | committed hcom =>
    intro he
    rw [hcom.eq] at he
    cases he
  | reconciled hrec =>
    intro he b
    have he' : sys.store.empty = true := by
      rw [hrec.eq] at he
      exact he
    rw [hrec.blockDoc_other hdb.dbOk hsane.1 ?_]
    · exact h he' b
    · -- there is nothing to reconcile
      intro hupd
      cases he'.symm.trans (hsteady b (hrec.mem_keys hupd))
  | purged _ hp =>
    intro he b
    rw [hp.empty] at he
    exact hp.blockDoc_of_none (h he b)
  | reopened hre =>
    obtain ⟨hdb', _, _, hempty⟩ := Store.reopen_ok hdb.counter hre
    refine h.congr hdb' fun he => ?_
    rw [hempty, decide_eq_true_eq] at he
    exact hsteady.resolve_right (not_not.mpr he)
  | _ => exact h.congr rfl id

def SaneSteady (sys : Sys) (op : Op) : Prop := Sane sys op ∧ Steady sys op

instance (sys : Sys) (op : Op) : Decidable (SaneSteady sys op) :=
  inferInstanceAs (Decidable (_ ∧ _))

theorem fresh_after (h : Meets (Sys.step x btlPolicy conf) SaneSteady Sys.init ops) :
    Sound x btlPolicy (Sys.after x btlPolicy conf ops) ∧
      Fresh (Sys.after x btlPolicy conf ops).store := by
  refine run_invariant (P := fun sys => Sound x btlPolicy sys ∧ Fresh sys.store)
    (fun sys op hinv hok => ?_) ⟨sound_init, fun _ _ => rfl⟩ h
  exact ⟨hinv.1.step hok.1, hinv.2.change hinv.1.db hok.1 hok.2 (hinv.1.change op)⟩

/-- A commit finds no document of its block. -/
theorem Store.Committed.fresh {s : Store} {pvtData : List TxPvtData}
    {missing : TxMissingPvtDataMap} {se : StoreEntries} {doc : Option CouchDoc}
    {pending : PendingPvtData} {kv : Kv} {last : UInt64}
    (h : Committed x btlPolicy conf s s' n pvtData missing se doc pending kv last)
    (hdb : DbSound x btlPolicy s) (hfresh : Fresh s) :
    s.db.lookup (blockNumberToKey n) = none := by
  refine hdb.dbOk.lookup_eq_none.mp ?_
  cases he : s.empty with
  | true => exact hfresh he n
  | false =>
    refine Option.eq_none_iff_forall_ne_some.mpr fun d hd => ?_
    have hlt := UInt64.lt_iff_toNat_lt.mp ((h.le hdb.counter).2.1 he)
    have hle := UInt64.le_iff_toNat_le.mp (hdb.block_le hd)
    omega

/-! ## §2 Written data -/

/-- The operation stores the write set `v` under the key `k`. Of the entries of a
reconciliation those are stored that never expire or whose expiry data is there. -/
def Writes (x : Externals) (btlPolicy : BtlPolicy) (conf : Conf) (sys : Sys) (k : DataKey)
    (v : CollectionPvtReadWriteSet) : Op → Prop
  | .commit n pvtData missing =>
    (sys.store.commit x btlPolicy conf n pvtData missing).2 = .ok () ∧
      (⟨k, v⟩ : DataEntry) ∈ prepareDataEntries n pvtData
  | .commitPvtDataOfOldBlocks blocksPvtData unreconciled =>
    sys.proc.locked = false ∧
      (sys.store.commitPvtDataOfOldBlocks x btlPolicy blocksPvtData unreconciled).2 = .ok () ∧
      (⟨k, v⟩ : DataEntry) ∈ dataEntriesOfBlocks blocksPvtData ∧
      Accepts btlPolicy (Store.getExpiryDataOfExpiryKey x sys.store) ⟨k, v⟩
  | _ => False

/-- The write sets that a run has stored. Those of a commit come from its arguments; a reconciled
one has to pass `Accepts` too, which reads the expiry data of the store. -/
def Stored (x : Externals) (btlPolicy : BtlPolicy) (conf : Conf) (ops : List Op) (k : DataKey)
    (v : CollectionPvtReadWriteSet) : Prop :=
  Happens (Sys.step x btlPolicy conf) (fun sys op => Writes x btlPolicy conf sys k v op)
    Sys.init ops

def ExpiredBy (btlPolicy : BtlPolicy) (k : NsCollBlk) (last : UInt64) : Prop :=
  ∃ e ≤ last, btlPolicy.getExpiringBlock k.ns k.coll k.blkNum = .ok e

theorem ExpiredBy.mono {k : NsCollBlk} {last last' : UInt64} (h : ExpiredBy btlPolicy k last)
    (hle : last ≤ last') : ExpiredBy btlPolicy k last' := by
  obtain ⟨e, he, hexp⟩ := h
  exact ⟨e, UInt64.le_trans he hle, hexp⟩

/-- What a step does to the data of one key: only its own write sets are new, all of
them are there afterwards, and nothing goes before it has expired. -/
structure DataStep (x : Externals) (btlPolicy : BtlPolicy) (conf : Conf) (sys : Sys) (op : Op)
    (s' : Store) (k : DataKey) : Prop where
  new : ∀ v, s'.dataAt x k = some v →
    sys.store.dataAt x k = some v ∨ Writes x btlPolicy conf sys k v op
  written : ∀ v, Writes x btlPolicy conf sys k v op → ∃ v', s'.dataAt x k = some v'
  kept : ∀ v, sys.store.dataAt x k = some v →
    (∃ v', s'.dataAt x k = some v') ∨ ExpiredBy btlPolicy k.toNsCollBlk s'.lastCommittedBlock

theorem DataStep.of_same (hdata : s'.dataAt x k = sys.store.dataAt x k)
    (hno : ∀ v, ¬ Writes x btlPolicy conf sys k v op) :
    DataStep x btlPolicy conf sys op s' k where
  new _ hv := .inl (hdata ▸ hv)
  written v hw := absurd hw (hno v)
  kept v hv := .inl ⟨v, hdata ▸ hv⟩

section
variable (hdb : DbSound x btlPolicy sys.store)
include hdb

theorem DataStep.committed {pvtData : List TxPvtData}
    {missing : TxMissingPvtDataMap} (hfresh : Fresh sys.store)
    (hnul : Store.NulFreeData pvtData) (hk : NulFree k.ns)
    (hc : sys.store.commit x btlPolicy conf n pvtData missing = (s', .ok ())) :
    DataStep x btlPolicy conf sys (.commit n pvtData missing) s' k := by
  obtain ⟨e, _, herr, _⟩ | ⟨_, se, _, _, _, _, hcom⟩ := Store.commit_cases hc
  · cases herr
  by_cases hb : k.blkNum = n
  · have hat := hcom.dataAt_self (hcom.fresh hdb hfresh) hnul hb hk
    rw [(prepareStoreEntries_ok hcom.entries).dataEntries] at hat
    refine ⟨fun v hv => .inr ⟨by rw [hc], ?_⟩, fun v hw => ?_, fun v hv => ?_⟩
    · rw [hat] at hv
      obtain ⟨de, hde, heq⟩ := List.mem_map.mp (GoMap.mem_of_lastValue hv)
      obtain ⟨rfl, rfl⟩ := Prod.mk.inj heq
      exact hde
    · rw [hat, ← Option.ne_none_iff_exists', ne_eq, GoMap.lastValue_eq_none, not_not,
        List.map_map]
      exact List.mem_map_of_mem (f := Prod.fst ∘ DataEntry.toPair) hw.2
    · -- the block had no document
      rw [Store.dataAt, hb, hdb.dbOk.lookup_eq_none.mpr (hcom.fresh hdb hfresh)] at hv
      cases hv
  · refine .of_same ?_ fun v hw => hb (blkNum_of_mem_prepareDataEntries hw.2)
    rw [Store.dataAt, Store.dataAt, hcom.blockDoc_of_ne hb]

theorem DataStep.reconciled
    {blocksPvtData : GoMap UInt64 (List TxPvtData)} {unreconciled : MissingPvtDataInfo}
    (hnul : Store.NulFreeBlocks blocksPvtData)
    (hk : NulFree k.ns) (hfree : sys.proc.locked = false)
    (hc : sys.store.commitPvtDataOfOldBlocks x btlPolicy blocksPvtData unreconciled =
      (s', .ok ())) :
    DataStep x btlPolicy conf sys (.commitPvtDataOfOldBlocks blocksPvtData unreconciled) s' k := by
  obtain ⟨⟨e, herr⟩, _⟩ | ⟨_, entries, _, _, hrec⟩ := Store.commitPvtDataOfOldBlocks_cases hc
  · cases herr
  have hat := hrec.dataAt_eq hdb.dbOk hnul hk
  refine ⟨fun v hv => ?_, fun v hw => ?_, fun v hv => ?_⟩
  · rw [hat, Option.or_eq_some_iff] at hv
    rcases hv with hl | ⟨_, hold⟩
    · obtain ⟨de, hde, hacc, rfl, rfl⟩ := hrec.dataSpec.mem hl
      exact .inr ⟨hfree, by rw [hc], hde, hacc⟩
    · exact .inl hold
  · obtain ⟨v', hv'⟩ := hrec.dataSpec.stored _ hw.2.2.1 hw.2.2.2
    exact ⟨v', by rw [hat, hv', Option.some_or]⟩
  · rw [hat, hv]
    cases entries.dataEntries.lookup k with
    | none => exact .inl ⟨v, rfl⟩
    | some v' => exact .inl ⟨v', rfl⟩

theorem DataStep.purged
    (hle : n ≤ sys.store.lastCommittedBlock) (hp : Store.Purged x conf n sys.store s')
    (hk : NulFree k.ns) : DataStep x btlPolicy conf sys (.purge n) s' k where
  new v hv := .inl ((hp.dataAt_iff hdb.nulFree hk).mp hv).1
  written _ hw := hw.elim
  kept v hv := by
    by_cases hdue : Store.DataDue x conf sys.store n k
    · obtain ⟨_, e, he, ed, hat, hpres⟩ := hdue
      refine .inr ⟨e, ?_, (hdb.present hat hpres).2.1⟩
      rw [hp.lastCommittedBlock]
      exact UInt64.le_trans he hle
    · exact .inl ⟨v, (hp.dataAt_iff hdb.nulFree hk).mpr ⟨hv, hdue⟩⟩

end

theorem dataStep (h : Sound x btlPolicy sys) (hfresh : Fresh sys.store)
    (hsane : Sane sys op) (hk : NulFree k.ns) :
    DataStep x btlPolicy conf sys op (sys.step x btlPolicy conf op).store k := by
  have hch : StoreChange x btlPolicy conf op sys.store (sys.step x btlPolicy conf op).store :=
    h.change op
  cases op with
  | commit n pvtData missing =>
    simp only [Sys.step, Sys.commit]
    cases hc : sys.store.commit x btlPolicy conf n pvtData missing with
    | mk s' r =>
      cases r with
      | error e =>
        obtain ⟨_, kv, _, _, rfl⟩ | ⟨hok, _⟩ := Store.commit_cases hc
        · refine .of_same rfl fun v hw => ?_
          rw [Writes, hc] at hw
          cases hw.1
        · cases hok
      | ok u => exact .committed h.db hfresh hsane.1 hk hc
  | commitPvtDataOfOldBlocks blocks unreconciled =>
    simp only [Sys.step]
    split
    · rename_i hlocked
      refine .of_same rfl fun v hw => ?_
      cases hlocked.symm.trans hw.1
    · rename_i hlocked
      cases hc : sys.store.commitPvtDataOfOldBlocks x btlPolicy blocks unreconciled with
      | mk s' r =>
        cases r with
        | error e =>
          obtain ⟨_, rfl⟩ | ⟨hok, _⟩ := Store.commitPvtDataOfOldBlocks_cases hc
          · refine .of_same rfl fun v hw => ?_
            rw [Writes, hc] at hw
            cases hw.2.1
          · cases hok
        | ok u =>
          exact .reconciled h.db hsane.1 hk (Bool.eq_false_iff.mpr hlocked) hc
  | purge n =>
    generalize hs' : (sys.step x btlPolicy conf (.purge n)).store = s' at hch
    cases hch with
    | unchanged => exact .of_same rfl fun _ => id
    | purged hle hp => exact .purged h.db hle hp hk
  | reopen =>
    generalize hs' : (sys.step x btlPolicy conf .reopen).store = s' at hch
    refine .of_same ?_ fun _ => id
    cases hch with
    | unchanged => rfl
    | reopened hre => rw [Store.dataAt, Store.dataAt, (Store.reopen_ok h.db.counter hre).1]
  | _ =>
    refine .of_same ?_ fun _ => id
    generalize (Sys.step x btlPolicy conf sys _).store = s' at hch
    cases hch <;> rfl

/-- What the documents show of a run: only what it has stored, and all of it that has
not expired. -/
structure DataKept (x : Externals) (btlPolicy : BtlPolicy) (conf : Conf) (ops : List Op)
    (s : Store) (k : DataKey) : Prop where
  stored : ∀ {v}, s.dataAt x k = some v → Stored x btlPolicy conf ops k v
  there : ∀ {v}, Stored x btlPolicy conf ops k v →
    (∃ v', s.dataAt x k = some v') ∨ ExpiredBy btlPolicy k.toNsCollBlk s.lastCommittedBlock

theorem stored_after (h : Meets (Sys.step x btlPolicy conf) SaneSteady Sys.init ops)
    (hk : NulFree k.ns) :
    DataKept x btlPolicy conf ops (Sys.after x btlPolicy conf ops).store k := by
  refine run_induction (P := fun ops sys => DataKept x btlPolicy conf ops sys.store k) ?_
    (fun ops op hops hok ih => ?_) h
  · exact ⟨nofun, fun hs => hs.elim⟩
  · obtain ⟨hsound, hfresh⟩ := fresh_after hops
    have hstep : DataStep x btlPolicy conf (Sys.after x btlPolicy conf ops) op _ k :=
      dataStep hsound hfresh hok.1 hk
    have hch : StoreChange x btlPolicy conf op _ _ := hsound.change op
    have hle := hch.le hsound.db.counter
    refine ⟨fun hv => happens_concat.mpr ?_, fun hs => ?_⟩
    · exact (hstep.new _ hv).imp_left ih.stored
    · rcases happens_concat.mp hs with hold | hw
      · rcases ih.there hold with ⟨v', hv'⟩ | hexp
        · exact hstep.kept v' hv'
        · exact .inr (hexp.mono hle)
      · exact .inl (hstep.written _ hw)

/-- A key of a write set that was stored has no NUL byte in its namespace, and the
collection its write set names. -/
theorem Stored.key (h : Meets (Sys.step x btlPolicy conf) SaneSteady Sys.init ops)
    {v : CollectionPvtReadWriteSet} (hs : Stored x btlPolicy conf ops k v) :
    NulFree k.ns ∧ v.collectionName = k.coll := by
  refine run_induction (P := fun ops _ => Stored x btlPolicy conf ops k v →
    NulFree k.ns ∧ v.collectionName = k.coll) nofun (fun ops op hops hok ih hs => ?_) h hs
  rcases happens_concat.mp hs with hold | hw
  · exact ih hold
  · cases op with
    | commit n pvtData missing =>
      exact ⟨hok.1.1.key hw.2, collectionName_of_mem_prepareDataEntries hw.2⟩
    | commitPvtDataOfOldBlocks blocks unreconciled =>
      obtain ⟨_, _, _, hmem⟩ := Store.mem_dataEntriesOfBlocks.mp hw.2.2.1
      exact ⟨hok.1.1.key hw.2.2.1, collectionName_of_mem_prepareDataEntries hmem⟩
    | _ => exact hw.elim

end

end FabricPeerExt.PvtData
