/-
FabricPeerExt.PvtData.OldBlocksTheorems — what the processor of old blocks builds. The expiry
entry of a key is the stored one plus one of the accepted entries that share it, whichever comes
last.
-/
import FabricPeerExt.PvtData.HelperTheorems
import FabricPeerExt.PvtData.Instance
import FabricPeerExt.PvtData.Views

namespace FabricPeerExt.PvtData

open Lib

/-! ## §1 Data and expiry entries -/

section
variable {btlPolicy : BtlPolicy} {getExpiryData : ExpiryKey → Except Err (Option ExpiryData)}

/-- The entry expires at block `e`, and `old` is what is stored for its expiry key. -/
def FiniteAt (btlPolicy : BtlPolicy) (getExpiryData : ExpiryKey → Except Err (Option ExpiryData))
    (de : DataEntry) (e : UInt64) (old : ExpiryData) : Prop :=
  ExpiresAt btlPolicy de.key.toNsCollBlk e ∧
    getExpiryData ⟨e, de.key.blkNum⟩ = .ok (some old)

/-- The entry is taken: it never expires, or its expiry data is stored. -/
def Accepts (btlPolicy : BtlPolicy) (getExpiryData : ExpiryKey → Except Err (Option ExpiryData))
    (de : DataEntry) : Prop :=
  btlPolicy.getExpiringBlock de.key.ns de.key.coll de.key.blkNum = .ok maxUint64 ∨
    ∃ e old, FiniteAt btlPolicy getExpiryData de e old

def withEntry (de : DataEntry) (old : ExpiryData) : ExpiryData :=
  old.addPresentData de.key.ns de.key.coll de.key.txNum

/-- One round of the loop: the entry is skipped, or stored without expiry entry, or
stored with its expiry entry. -/
theorem prepareDataAndExpiryEntry_ok {entries entries' : EntriesForPvtDataOfOldBlocks}
    {de : DataEntry}
    (h : prepareDataAndExpiryEntry btlPolicy getExpiryData entries de = .ok entries') :
    (¬ Accepts btlPolicy getExpiryData de ∧ entries' = entries) ∨
    ((btlPolicy.getExpiringBlock de.key.ns de.key.coll de.key.blkNum = .ok maxUint64) ∧
      entries' =
        { entries with dataEntries := entries.dataEntries.insert de.key de.value }) ∨
    ∃ e old, FiniteAt btlPolicy getExpiryData de e old ∧
      entries' =
        { entries with
          dataEntries := entries.dataEntries.insert de.key de.value
          expiryEntries :=
            entries.expiryEntries.insert ⟨e, de.key.blkNum⟩ (withEntry de old) } := by
  unfold prepareDataAndExpiryEntry constructExpiryKey at h
  cases he : btlPolicy.getExpiringBlock de.key.ns de.key.coll de.key.blkNum with
  | error err => simp [he] at h
  | ok e =>
    simp only [he] at h
    by_cases hmax : e = maxUint64
    · rw [if_pos (neverExpires_iff.mpr hmax)] at h
      exact .inr (.inl ⟨by rw [hmax], (Except.ok.inj h).symm⟩)
    · rw [if_neg (mt neverExpires_iff.mp hmax)] at h
      have hexp : ExpiresAt btlPolicy de.key.toNsCollBlk e := ⟨he, hmax⟩
      cases hg : getExpiryData ⟨e, de.key.blkNum⟩ with
      | error err => simp [hg] at h
      | ok o =>
        cases o with
        | none =>
          simp only [hg] at h
          refine .inl ⟨?_, (Except.ok.inj h).symm⟩
          rintro (hnever | ⟨e', old, hfin, hold⟩)
          · exact hmax (Except.ok.inj (he.symm.trans hnever))
          · rw [← hexp.unique hfin, hg] at hold
            cases hold
        | some old =>
          simp only [hg] at h
          exact .inr (.inr ⟨e, old, ⟨hexp, hg⟩, (Except.ok.inj h).symm⟩)

structure DataSpec (btlPolicy : BtlPolicy)
    (getExpiryData : ExpiryKey → Except Err (Option ExpiryData)) (des : List DataEntry)
    (D : GoMap DataKey CollectionPvtReadWriteSet) : Prop where
  mem : ∀ {k v}, D.lookup k = some v →
    ∃ de ∈ des, Accepts btlPolicy getExpiryData de ∧ de.key = k ∧ de.value = v
  stored : ∀ de ∈ des, Accepts btlPolicy getExpiryData de → ∃ v, D.lookup de.key = some v

structure ExpirySpec (btlPolicy : BtlPolicy)
    (getExpiryData : ExpiryKey → Except Err (Option ExpiryData)) (des : List DataEntry)
    (E : GoMap ExpiryKey ExpiryData) : Prop where
  mem : ∀ {ek ed}, E.lookup ek = some ed →
    ∃ de ∈ des, ∃ old, FiniteAt btlPolicy getExpiryData de ek.expiringBlk old ∧
      ek.committingBlk = de.key.blkNum ∧ ed = withEntry de old
  stored : ∀ de ∈ des, ∀ e old, FiniteAt btlPolicy getExpiryData de e old →
    ∃ ed, E.lookup ⟨e, de.key.blkNum⟩ = some ed

variable {entries : EntriesForPvtDataOfOldBlocks}

variable {des : List DataEntry}

section
variable (h : forEach (prepareDataAndExpiryEntry btlPolicy getExpiryData)
  newEntriesForPvtDataOfOldBlocks des = .ok entries)
include h

theorem dataSpec_of_forEach :
    DataSpec btlPolicy getExpiryData des entries.dataEntries where
  mem := by
    refine forEach_invariant (P := fun a : EntriesForPvtDataOfOldBlocks => ∀ {k v},
      a.dataEntries.lookup k = some v → ∃ de ∈ des, Accepts btlPolicy getExpiryData de ∧
        de.key = k ∧ de.value = v) ?_ (fun hl => by cases hl) h
    intro a de a' hde ha hstep k v hl
    rcases prepareDataAndExpiryEntry_ok hstep with ⟨_, rfl⟩ | ⟨hacc, rfl⟩ | ⟨e, old, hfin, rfl⟩
    · exact ha hl
    all_goals
      rw [GoMap.lookup_insert_eq] at hl
      split at hl
      · rename_i hk
        refine ⟨de, hde, ?_, hk.symm, Option.some.inj hl⟩
        first | exact .inl hacc | exact .inr ⟨e, old, hfin⟩
      · exact ha hl
  stored := by
    refine forEach_mem (Q := fun de (a : EntriesForPvtDataOfOldBlocks) =>
      Accepts btlPolicy getExpiryData de → ∃ v, a.dataEntries.lookup de.key = some v) ?_ ?_ h
    · intro a de a' _ hstep hacc
      rcases prepareDataAndExpiryEntry_ok hstep with ⟨hno, _⟩ | ⟨_, rfl⟩ | ⟨_, _, _, rfl⟩
      · exact absurd hacc hno
      all_goals exact ⟨de.value, AList.lookup_insert _⟩
    · intro a de de' a' _ ha hstep hacc
      obtain ⟨v, hv⟩ := ha hacc
      rcases prepareDataAndExpiryEntry_ok hstep with ⟨_, rfl⟩ | ⟨_, rfl⟩ | ⟨_, _, _, rfl⟩
      · exact ⟨v, hv⟩
      all_goals
        simp only [GoMap.lookup_insert_eq]
        split
        · exact ⟨_, rfl⟩
        · exact ⟨v, hv⟩

theorem expirySpec_of_forEach :
    ExpirySpec btlPolicy getExpiryData des entries.expiryEntries where
  mem := by
    refine forEach_invariant (P := fun a : EntriesForPvtDataOfOldBlocks => ∀ {ek ed},
      a.expiryEntries.lookup ek = some ed → ∃ de ∈ des, ∃ old,
        FiniteAt btlPolicy getExpiryData de ek.expiringBlk old ∧
        ek.committingBlk = de.key.blkNum ∧ ed = withEntry de old) ?_ (fun hl => by cases hl) h
    intro a de a' hde ha hstep ek ed hl
    rcases prepareDataAndExpiryEntry_ok hstep with ⟨_, rfl⟩ | ⟨_, rfl⟩ | ⟨e, old, hfin, rfl⟩
    · exact ha hl
    · exact ha hl
    · rw [GoMap.lookup_insert_eq] at hl
      split at hl
      · rename_i hk
        subst hk
        exact ⟨de, hde, old, hfin, rfl, (Option.some.inj hl).symm⟩
      · exact ha hl
  stored := by
    refine forEach_mem (Q := fun de (a : EntriesForPvtDataOfOldBlocks) => ∀ e old,
      FiniteAt btlPolicy getExpiryData de e old →
        ∃ ed, a.expiryEntries.lookup ⟨e, de.key.blkNum⟩ = some ed) ?_ ?_ h
    · intro a de a' _ hstep e old hfin
      rcases prepareDataAndExpiryEntry_ok hstep with ⟨hno, _⟩ | ⟨hnever, _⟩ | ⟨e', _, hfin', rfl⟩
      · exact absurd (.inr ⟨e, old, hfin⟩) hno
      · exact absurd (Except.ok.inj (hfin.1.1.symm.trans hnever)) hfin.1.2
      · rw [hfin.1.unique hfin'.1]
        exact ⟨_, AList.lookup_insert _⟩
    · intro a de de' a' _ ha hstep e old hfin
      obtain ⟨ed, hed⟩ := ha e old hfin
      rcases prepareDataAndExpiryEntry_ok hstep with ⟨_, rfl⟩ | ⟨_, rfl⟩ | ⟨_, _, _, rfl⟩
      · exact ⟨ed, hed⟩
      · exact ⟨ed, hed⟩
      · simp only [GoMap.lookup_insert_eq]
        split
        · exact ⟨_, rfl⟩
        · exact ⟨ed, hed⟩

/-- The loop does not touch the bitmaps. -/
theorem missing_of_forEach :
    entries.prioritizedMissingDataEntries = ∅ ∧ entries.deprioritizedMissingDataEntries = ∅ := by
  refine forEach_invariant (P := fun a : EntriesForPvtDataOfOldBlocks =>
    a.prioritizedMissingDataEntries = ∅ ∧ a.deprioritizedMissingDataEntries = ∅) ?_ ⟨rfl, rfl⟩ h
  intro a de a' _ ha hstep
  rcases prepareDataAndExpiryEntry_ok hstep with ⟨_, rfl⟩ | ⟨_, rfl⟩ | ⟨_, _, _, rfl⟩ <;>
    exact ha

end

end

/-! ## §2 Regrouping -/

def entriesOf (m : GoMap UInt64 DataAndExpiryEntries) (b : UInt64) : DataAndExpiryEntries :=
  (m.lookup b).getD ⟨∅, ∅⟩

theorem entriesOf_insert (m : GoMap UInt64 DataAndExpiryEntries) (b b' : UInt64)
    (en : DataAndExpiryEntries) :
    entriesOf (m.insert b en) b' = if b' = b then en else entriesOf m b' := by
  rw [entriesOf, GoMap.lookup_insert_eq]
  split <;> rfl

variable {m : GoMap UInt64 DataAndExpiryEntries}

theorem entriesOf_of_lookup {b : UInt64}
    {en : DataAndExpiryEntries} (h : m.lookup b = some en) : entriesOf m b = en := by
  rw [entriesOf, h]
  rfl

/-- The map `m` holds the data entries `D` and the expiry entries `E`, each in its
block, and no block without data entries. -/
structure ByBlock (D : GoMap DataKey CollectionPvtReadWriteSet) (E : GoMap ExpiryKey ExpiryData)
    (m : GoMap UInt64 DataAndExpiryEntries) : Prop where
  data : ∀ b k, (entriesOf m b).dataEntries.lookup k =
    if k.blkNum = b then D.lookup k else none
  expiry : ∀ b ek, (entriesOf m b).expiryEntries.lookup ek =
    if ek.committingBlk = b then E.lookup ek else none
  mem_iff : ∀ b, (∃ en, m.lookup b = some en) ↔ ∃ k v, k.blkNum = b ∧ D.lookup k = some v

variable (l : List (DataKey × CollectionPvtReadWriteSet))

theorem dataEntriesByBlock_cons (p : DataKey × CollectionPvtReadWriteSet) :
    dataEntriesByBlock m (p :: l) = dataEntriesByBlock
      (m.insert p.1.blkNum { entriesOf m p.1.blkNum with
        dataEntries := (entriesOf m p.1.blkNum).dataEntries.insert p.1 p.2 }) l := rfl

/-- The first loop: the data entries by block. -/
theorem dataEntriesByBlock_lookup :
    ∀ (m : GoMap UInt64 DataAndExpiryEntries) (b : UInt64) (k : DataKey),
      (entriesOf (dataEntriesByBlock m l) b).dataEntries.lookup k =
        if k.blkNum = b then (GoMap.lastValue k l).or ((entriesOf m b).dataEntries.lookup k)
        else (entriesOf m b).dataEntries.lookup k := by
  induction l with
  | nil => intro m b k; simp [dataEntriesByBlock, GoMap.lastValue]
  | cons p l ih =>
    intro m b k
    rw [dataEntriesByBlock_cons, ih, entriesOf_insert, GoMap.lastValue, Option.or_assoc]
    by_cases hb : b = p.1.blkNum
    · subst hb
      simp only [if_true, GoMap.lookup_insert_eq]
      by_cases hk : p.1 = k
      · subst hk; simp
      · simp [hk, Ne.symm hk]
    · have hk : k.blkNum = b → p.1 ≠ k := fun he hp => hb (by rw [← he, hp])
      by_cases he : k.blkNum = b
      · simp [hb, he, hk he]
      · simp [hb, he]

theorem dataEntriesByBlock_expiry :
    ∀ (m : GoMap UInt64 DataAndExpiryEntries) (b : UInt64),
      (entriesOf (dataEntriesByBlock m l) b).expiryEntries = (entriesOf m b).expiryEntries := by
  induction l with
  | nil => intro m b; rfl
  | cons p l ih =>
    intro m b
    rw [dataEntriesByBlock_cons, ih, entriesOf_insert]
    split
    · rename_i hb; rw [hb]
    · rfl

theorem dataEntriesByBlock_mem :
    ∀ (m : GoMap UInt64 DataAndExpiryEntries) (b : UInt64),
      (∃ en, (dataEntriesByBlock m l).lookup b = some en) ↔
        (∃ en, m.lookup b = some en) ∨ ∃ p ∈ l, p.1.blkNum = b := by
  induction l with
  | nil => intro m b; simp [dataEntriesByBlock]
  | cons p l ih =>
    intro m b
    rw [dataEntriesByBlock_cons, ih, GoMap.lookup_insert_eq]
    simp only [List.mem_cons, exists_eq_or_imp]
    by_cases hb : b = p.1.blkNum
    · simp [hb]
    · simp [hb, Ne.symm hb]

theorem byBlock_dataEntriesByBlock (D : GoMap DataKey CollectionPvtReadWriteSet) :
    ByBlock D ∅ (dataEntriesByBlock ∅ D.toList) where
  data b k := by
    rw [dataEntriesByBlock_lookup, GoMap.lastValue_toList]
    simp [entriesOf]
  expiry b ek := by
    rw [dataEntriesByBlock_expiry]
    simp [entriesOf]
  mem_iff b := by
    rw [dataEntriesByBlock_mem]
    simp only [AList.lookup_empty, reduceCtorEq, exists_false, false_or, Prod.exists,
      GoMap.mem_toList]
    exact ⟨fun ⟨k, v, hl, hb⟩ => ⟨k, v, hb, hl⟩, fun ⟨k, v, hb, hl⟩ => ⟨k, v, hl, hb⟩⟩

/-- One round of the second loop: the expiry entry goes to its block's record. -/
theorem expiryEntryByBlock_ok {D : GoMap DataKey CollectionPvtReadWriteSet}
    {E : GoMap ExpiryKey ExpiryData} {m' : GoMap UInt64 DataAndExpiryEntries}
    {p : ExpiryKey × ExpiryData} (hm : ByBlock D E m) (h : expiryEntryByBlock m p = .ok m') :
    ByBlock D (E.insert p.1 p.2) m' := by
  unfold expiryEntryByBlock at h
  split at h
  · cases h
  · rename_i en hl
    obtain rfl := Except.ok.inj h
    have hen := entriesOf_of_lookup hl
    refine ⟨fun b k => ?_, fun b ek => ?_, fun b => ?_⟩
    · rw [entriesOf_insert]
      split
      · rename_i hb; rw [hb, ← hm.data, hen]
      · exact hm.data b k
    · rw [entriesOf_insert, GoMap.lookup_insert_eq]
      split
      · rename_i hb
        subst hb
        rw [GoMap.lookup_insert_eq, ← hen, hm.expiry]
        by_cases hek : ek = p.1
        · simp [hek]
        · simp [hek]
      · rename_i hb
        have hek : ek.committingBlk = b → ek ≠ p.1 := fun he hp => hb (by rw [← he, hp])
        rw [hm.expiry]
        by_cases he : ek.committingBlk = b
        · simp [he, hek he]
        · simp [he]
    · rw [← hm.mem_iff b, GoMap.lookup_insert_eq]
      split
      · rename_i hb
        subst hb
        exact ⟨fun _ => ⟨en, hl⟩, fun _ => ⟨_, rfl⟩⟩
      · rfl

/-- `dataAndExpiryEntriesByBlock` splits the entries by block and loses none. -/
theorem byBlock_ok {e : EntriesForPvtDataOfOldBlocks}
    (h : dataAndExpiryEntriesByBlock e = .ok m) : ByBlock e.dataEntries e.expiryEntries m := by
  have hloop : ∀ (l : List (ExpiryKey × ExpiryData)) {E : GoMap ExpiryKey ExpiryData}
      {m m' : GoMap UInt64 DataAndExpiryEntries}, ByBlock e.dataEntries E m →
      forEach expiryEntryByBlock m l = .ok m' →
      ByBlock e.dataEntries (GoMap.insertAll E l) m' := by
    intro l
    induction l with
    | nil => intro E m m' hm hf; cases hf; exact hm
    | cons p l ih =>
      intro E m m' hm hf
      obtain ⟨m1, h1, h2⟩ := forEach_cons_ok.mp hf
      exact ih (expiryEntryByBlock_ok hm h1) h2
  have hend := hloop e.expiryEntries.toList (byBlock_dataEntriesByBlock e.dataEntries) h
  refine ⟨hend.data, fun b ek => ?_, hend.mem_iff⟩
  rw [hend.expiry b ek, GoMap.lookup_insertAll, GoMap.lastValue_toList, AList.lookup_empty,
    Option.or_none]

/-- The second loop meets no nil map if every expiry entry has a data entry of its block. -/
theorem byBlock_succeeds {e : EntriesForPvtDataOfOldBlocks}
    (h : ∀ ek ed, e.expiryEntries.lookup ek = some ed →
      ∃ k v, k.blkNum = ek.committingBlk ∧ e.dataEntries.lookup k = some v) :
    ∃ m, dataAndExpiryEntriesByBlock e = .ok m ∧ ByBlock e.dataEntries e.expiryEntries m := by
  suffices hok : ∃ m, dataAndExpiryEntriesByBlock e = .ok m ∧ ∃ E, ByBlock e.dataEntries E m by
    obtain ⟨m, hm, _⟩ := hok
    exact ⟨m, hm, byBlock_ok hm⟩
  refine forEach_succeeds (fun m p hp => ?_) ⟨∅, byBlock_dataEntriesByBlock e.dataEntries⟩
  rintro ⟨E, hm⟩
  obtain ⟨en, hen⟩ := (hm.mem_iff p.1.committingBlk).mpr (h p.1 p.2 (GoMap.mem_toList.mp hp))
  have hstep : ∃ m', expiryEntryByBlock m p = .ok m' := by simp [expiryEntryByBlock, hen]
  obtain ⟨m', hm'⟩ := hstep
  exact ⟨m', hm', _, expiryEntryByBlock_ok hm hm'⟩

/-- The prepared entries are regrouped without panic, whatever order the two maps are iterated
in: each entry is in the record of the block of its key and in no other. -/
theorem regroup_prepared {btlPolicy : BtlPolicy}
    {getExpiryData : ExpiryKey → Except Err (Option ExpiryData)}
    {blocksPvtData : GoMap UInt64 (List TxPvtData)} {e e' : EntriesForPvtDataOfOldBlocks}
    (h : prepareDataAndExpiryEntries btlPolicy getExpiryData blocksPvtData
      newEntriesForPvtDataOfOldBlocks = .ok e)
    (hdata : e'.dataEntries.toList.Perm e.dataEntries.toList)
    (hexpiry : e'.expiryEntries.toList.Perm e.expiryEntries.toList) :
    ∃ m, dataAndExpiryEntriesByBlock e' = .ok m ∧ ByBlock e.dataEntries e.expiryEntries m := by
  have hd : ∀ k, e'.dataEntries.lookup k = e.dataEntries.lookup k := fun k => by
    rw [← GoMap.lastValue_toList, GoMap.lastValue_perm hdata]
  have he : ∀ ek, e'.expiryEntries.lookup ek = e.expiryEntries.lookup ek := fun ek => by
    rw [← GoMap.lastValue_toList, GoMap.lastValue_perm hexpiry]
  obtain ⟨m, hm, hby⟩ := @byBlock_succeeds e' fun ek ed hl => by
    obtain ⟨de, hde, old, hfin, hblk, _⟩ := (expirySpec_of_forEach h).mem ((he ek).symm.trans hl)
    obtain ⟨v, hv⟩ := (dataSpec_of_forEach h).stored de hde (.inr ⟨_, old, hfin⟩)
    exact ⟨de.key, v, hblk.symm, (hd de.key).trans hv⟩
  refine ⟨m, hm, ?_, ?_, ?_⟩
  · simpa only [hd] using hby.data
  · simpa only [he] using hby.expiry
  · simpa only [hd] using hby.mem_iff

/-- A collection that expires, in two blocks; what block 1 had was purged. -/
def samplePrepared : Except Err EntriesForPvtDataOfOldBlocks :=
  prepareDataAndExpiryEntries (lifetimePolicy fun _ _ => 1)
    (fun ek => .ok (if ek.committingBlk = 1 then none else some ⟨∅⟩))
    (([1, 2] : List UInt64).foldl
      (fun m b => m.insert b [⟨0, ⟨0, [⟨[110], [⟨[99], [7]⟩]⟩]⟩⟩]) ∅)
    newEntriesForPvtDataOfOldBlocks

theorem regroup_prepared_sample :
    ∃ e, samplePrepared = .ok e ∧ e.expiryEntries.keys = [⟨4, 2⟩] ∧
      ∃ m, dataAndExpiryEntriesByBlock e = .ok m ∧ ByBlock e.dataEntries e.expiryEntries m := by
  refine ⟨_, rfl, by decide, ?_⟩
  exact regroup_prepared (rfl : samplePrepared = _) (.refl _) (.refl _)

/-! ## §3 Missing data -/

section
variable (x : Externals) (kv : Kv)

/-- The prioritised bitmap of a key during a call: the one of the call, else the
stored one. -/
def prioNow (entries : EntriesForPvtDataOfOldBlocks) (k : NsCollBlk) : Option BitSet :=
  (entries.prioritizedMissingDataEntries.lookup k).or (prioAt x kv k)

def deprioNow (entries : EntriesForPvtDataOfOldBlocks) (k : NsCollBlk) : Option BitSet :=
  (entries.deprioritizedMissingDataEntries.lookup k).or (deprioAt x kv k)

variable {x kv}

@[simp] theorem hasBit_none (i : UInt64) : hasBit none i = false := rfl

@[simp] theorem hasBit_some (b : BitSet) (i : UInt64) : hasBit (some b) i = b.test i := rfl

variable {k : NsCollBlk} {o : Option BitSet} {entries entries' : EntriesForPvtDataOfOldBlocks}

theorem getMissingDataFromEntriesOrStore_ok {encodeKey : MissingDataKey → Bytes}
    {m : GoMap NsCollBlk BitSet}
    (h : getMissingDataFromEntriesOrStore x kv encodeKey m k = .ok o) :
    o = (m.lookup k).or (view encodeKey (decodeMissingDataValue x) kv k) := by
  unfold getMissingDataFromEntriesOrStore at h
  unfold view
  cases hm : m.lookup k with
  | some b => simpa [hm, eq_comm] using h
  | none =>
    cases hl : kv.lookup (encodeKey k) with
    | none => simpa [hm, hl, eq_comm] using h
    | some bs =>
      cases hd : decodeMissingDataValue x bs with
      | error e => simp [hm, hl, hd] at h
      | ok b => simpa [hm, hl, hd, Except.toOption, eq_comm] using h

theorem getPrioMissingData_ok {entries : EntriesForPvtDataOfOldBlocks}
    (h : getPrioMissingDataFromEntriesOrStore x kv entries k = .ok o) :
    o = prioNow x kv entries k :=
  getMissingDataFromEntriesOrStore_ok h

theorem getDeprioMissingData_ok {entries : EntriesForPvtDataOfOldBlocks}
    (h : getDeprioMissingDataFromEntriesOrStore x kv entries k = .ok o) :
    o = deprioNow x kv entries k :=
  getMissingDataFromEntriesOrStore_ok h

/-- Writing one bitmap of the call. -/
theorem lookup_insert_or {m : GoMap NsCollBlk BitSet} {f : NsCollBlk → Option BitSet}
    (key k : NsCollBlk) (b : BitSet) :
    ((m.insert key b).lookup k).or (f k) =
      if k = key then some b else (m.lookup k).or (f k) := by
  rw [GoMap.lookup_insert_eq]
  split <;> rfl

def IsEntry (dk : DataKey) (k : NsCollBlk) (i : UInt64) : Prop :=
  k = dk.toNsCollBlk ∧ i = dk.txNum

variable {key : NsCollBlk}

/-- What clearing one bit in the bitmap of `key` does to all bits. -/
theorem hasBit_clear {f g : NsCollBlk → Option BitSet} {txNum : UInt64}
    (hg : ∀ k, g k = if k = key then some (((f key).getD BitSet.empty).clear txNum) else f k)
    (k : NsCollBlk) (i : UInt64) :
    hasBit (g k) i = true ↔ hasBit (f k) i = true ∧ ¬ (k = key ∧ i = txNum) := by
  rw [hg]
  by_cases hk : k = key
  · subst hk
    cases f k with
    | none => simp
    | some b => simp
  · simp [hk]

section
variable {dk : DataKey} (h : reflectReconciledData x kv entries dk = .ok entries')
include h

/-- One round of the loop over the reconciled entries. -/
theorem reflectReconciledData_ok :
    (hasBit (prioNow x kv entries dk.toNsCollBlk) dk.txNum = true ∧
      entries' = { entries with
        prioritizedMissingDataEntries := entries.prioritizedMissingDataEntries.insert
          dk.toNsCollBlk (((prioNow x kv entries dk.toNsCollBlk).getD BitSet.empty).clear
            dk.txNum) }) ∨
    (hasBit (prioNow x kv entries dk.toNsCollBlk) dk.txNum = false ∧
      hasBit (deprioNow x kv entries dk.toNsCollBlk) dk.txNum = true ∧
      entries' = { entries with
        deprioritizedMissingDataEntries := entries.deprioritizedMissingDataEntries.insert
          dk.toNsCollBlk (((deprioNow x kv entries dk.toNsCollBlk).getD BitSet.empty).clear
            dk.txNum) }) ∨
    (hasBit (prioNow x kv entries dk.toNsCollBlk) dk.txNum = false ∧
      hasBit (deprioNow x kv entries dk.toNsCollBlk) dk.txNum = false ∧ entries' = entries) := by
  unfold reflectReconciledData at h
  cases hp : getPrioMissingDataFromEntriesOrStore x kv entries dk.toNsCollBlk with
  | error e => simp [hp] at h
  | ok prio =>
    obtain rfl := getPrioMissingData_ok hp
    simp only [hp] at h
    split at h
    · rename_i hbit
      exact .inl ⟨hbit, (Except.ok.inj h).symm⟩
    · rename_i hbit
      rw [Bool.not_eq_true] at hbit
      cases hd : getDeprioMissingDataFromEntriesOrStore x kv entries dk.toNsCollBlk with
      | error e => simp [hd] at h
      | ok deprio =>
        obtain rfl := getDeprioMissingData_ok hd
        simp only [hd] at h
        split at h
        · rename_i hdbit
          exact .inr (.inl ⟨hbit, hdbit, (Except.ok.inj h).symm⟩)
        · rename_i hdbit
          exact .inr (.inr ⟨hbit, Bool.eq_false_iff.mpr hdbit, (Except.ok.inj h).symm⟩)

/-- The bits after one round of the loop over the reconciled entries. -/
theorem reflectReconciledData_bits :
    (entries'.dataEntries = entries.dataEntries ∧
      entries'.expiryEntries = entries.expiryEntries) ∧
    (∀ k i, hasBit (prioNow x kv entries' k) i = true ↔
      hasBit (prioNow x kv entries k) i = true ∧ ¬ IsEntry dk k i) ∧
    (∀ k i, hasBit (deprioNow x kv entries' k) i = true ↔
      hasBit (deprioNow x kv entries k) i = true ∧
        ¬ (IsEntry dk k i ∧ hasBit (prioNow x kv entries k) i = false)) := by
  rcases reflectReconciledData_ok h with ⟨hbit, rfl⟩ | ⟨hbit, hdbit, rfl⟩ | ⟨hbit, hdbit, rfl⟩
  · have hupd := lookup_insert_or (m := entries.prioritizedMissingDataEntries)
      (f := prioAt x kv) dk.toNsCollBlk
    refine ⟨⟨rfl, rfl⟩, hasBit_clear (fun k => hupd k _), fun k i => ?_⟩
    refine ⟨fun hd => ⟨hd, ?_⟩, fun hd => hd.1⟩
    rintro ⟨⟨rfl, rfl⟩, hno⟩
    rw [hbit] at hno
    cases hno
  · have hupd := lookup_insert_or (m := entries.deprioritizedMissingDataEntries)
      (f := deprioAt x kv) dk.toNsCollBlk
    refine ⟨⟨rfl, rfl⟩, fun k i => ⟨fun hb => ⟨hb, ?_⟩, fun hb => hb.1⟩, fun k i => ?_⟩
    · rintro ⟨rfl, rfl⟩
      have hb' : hasBit (prioNow x kv entries dk.toNsCollBlk) dk.txNum = true := hb
      rw [hbit] at hb'
      cases hb'
    · refine (hasBit_clear (fun k => hupd k _) k i).trans (and_congr_right fun _ => ?_)
      refine not_congr ⟨fun he => ⟨he, ?_⟩, fun he => he.1⟩
      obtain ⟨rfl, rfl⟩ := he
      exact hbit
  · refine ⟨⟨rfl, rfl⟩, fun k i => ⟨fun hb => ⟨hb, ?_⟩, fun hb => hb.1⟩,
      fun k i => ⟨fun hb => ⟨hb, ?_⟩, fun hb => hb.1⟩⟩
    · rintro ⟨rfl, rfl⟩
      rw [hbit] at hb
      cases hb
    · rintro ⟨⟨rfl, rfl⟩, _⟩
      rw [hdbit] at hb
      cases hb

end

section
variable {el : NsCollBlk × UInt64} (h : reflectPriority x kv entries el = .ok entries')
include h

/-- One round of the loop over the unreconciled elements. -/
theorem reflectPriority_ok :
    (prioNow x kv entries el.1 = none ∧ entries' = entries) ∨
    ∃ prio, prioNow x kv entries el.1 = some prio ∧
      entries' = { entries with
        prioritizedMissingDataEntries :=
          entries.prioritizedMissingDataEntries.insert el.1 (prio.clear el.2)
        deprioritizedMissingDataEntries :=
          entries.deprioritizedMissingDataEntries.insert el.1
            (((deprioNow x kv entries el.1).getD BitSet.empty).set el.2) } := by
  unfold reflectPriority at h
  cases hp : getPrioMissingDataFromEntriesOrStore x kv entries el.1 with
  | error e => simp [hp] at h
  | ok o =>
    have ho := getPrioMissingData_ok hp
    cases o with
    | none =>
      simp only [hp] at h
      exact .inl ⟨ho.symm, (Except.ok.inj h).symm⟩
    | some prio =>
      cases hd : getDeprioMissingDataFromEntriesOrStore x kv entries el.1 with
      | error e => simp [hp, hd] at h
      | ok deprio =>
        obtain rfl := getDeprioMissingData_ok hd
        simp only [hp, hd] at h
        exact .inr ⟨prio, ho.symm, (Except.ok.inj h).symm⟩

/-- The bits after one round of the loop over the unreconciled elements. -/
theorem reflectPriority_bits :
    (entries'.dataEntries = entries.dataEntries ∧
      entries'.expiryEntries = entries.expiryEntries) ∧
    (∀ k, prioNow x kv entries' k = none ↔ prioNow x kv entries k = none) ∧
    (∀ k i, hasBit (prioNow x kv entries' k) i = true ↔
      hasBit (prioNow x kv entries k) i = true ∧ (k, i) ≠ el) ∧
    (∀ k i, hasBit (deprioNow x kv entries' k) i = true ↔
      hasBit (deprioNow x kv entries k) i = true ∨
        ((k, i) = el ∧ prioNow x kv entries k ≠ none)) := by
  obtain ⟨key, txNum⟩ := el
  rcases reflectPriority_ok h with ⟨hnone, rfl⟩ | ⟨prio, hsome, rfl⟩
  · refine ⟨⟨rfl, rfl⟩, fun k => Iff.rfl, fun k i => ?_, fun k i => ?_⟩
    · refine ⟨fun hb => ⟨hb, fun he => ?_⟩, fun hb => hb.1⟩
      obtain ⟨rfl, rfl⟩ := Prod.mk.inj he
      rw [hnone] at hb
      cases hb
    · refine ⟨.inl, fun hb => hb.resolve_right ?_⟩
      rintro ⟨he, hne⟩
      obtain ⟨rfl, rfl⟩ := Prod.mk.inj he
      exact hne hnone
  · have hp := fun k => lookup_insert_or (m := entries.prioritizedMissingDataEntries)
      (f := prioAt x kv) key k (prio.clear txNum)
    have hq := fun k => lookup_insert_or (m := entries.deprioritizedMissingDataEntries)
      (f := deprioAt x kv) key k
        (((deprioNow x kv entries key).getD BitSet.empty).set txNum)
    refine ⟨⟨rfl, rfl⟩, fun k => ?_, fun k i => ?_, fun k i => ?_⟩
    · rw [prioNow, hp]
      by_cases hk : k = key
      · subst hk; simp [hsome]
      · simp [hk, prioNow]
    · rw [prioNow, hp]
      by_cases hk : k = key
      · subst hk; simp [hsome]
      · simp [hk, prioNow]
    · rw [deprioNow, hq]
      by_cases hk : k = key
      · subst hk
        cases deprioNow x kv entries k with
        | none => simp [hsome]
        | some b => simp [hsome]
      · simp [hk, deprioNow]

end

/-- The call has bitmaps only for keys with the property `K` that have a stored one. -/
structure Touched (x : Externals) (kv : Kv) (K : NsCollBlk → Prop)
    (entries : EntriesForPvtDataOfOldBlocks) : Prop where
  prio : ∀ {k b}, entries.prioritizedMissingDataEntries.lookup k = some b →
    K k ∧ prioAt x kv k ≠ none
  deprio : ∀ {k b}, entries.deprioritizedMissingDataEntries.lookup k = some b →
    K k ∧ (prioAt x kv k ≠ none ∨ deprioAt x kv k ≠ none)

variable {K : NsCollBlk → Prop}

theorem Touched.prioNow_ne {entries : EntriesForPvtDataOfOldBlocks}
    (h : Touched x kv K entries) (hk : prioNow x kv entries k ≠ none) :
    prioAt x kv k ≠ none := by
  cases hl : entries.prioritizedMissingDataEntries.lookup k with
  | none => rwa [prioNow, hl, Option.none_or] at hk
  | some b => exact (h.prio hl).2

theorem Touched.deprioNow_ne {entries : EntriesForPvtDataOfOldBlocks}
    (h : Touched x kv K entries) (hk : deprioNow x kv entries k ≠ none) :
    prioAt x kv k ≠ none ∨ deprioAt x kv k ≠ none := by
  cases hl : entries.deprioritizedMissingDataEntries.lookup k with
  | none => exact .inr (by rwa [deprioNow, hl, Option.none_or] at hk)
  | some b => exact (h.deprio hl).2

theorem ne_none_of_hasBit {i : UInt64} (h : hasBit o i = true) :
    o ≠ none := by
  rintro rfl
  cases h

section
variable {entries : EntriesForPvtDataOfOldBlocks} {b : BitSet} (h : Touched x kv K entries)
  (hK : K key)
include h hK

/-- One more prioritised bitmap for a key that has one. -/
theorem Touched.insertPrio (hkey : prioAt x kv key ≠ none) :
    Touched x kv K { entries with
      prioritizedMissingDataEntries := entries.prioritizedMissingDataEntries.insert key b } where
  prio hl := by
    rw [GoMap.lookup_insert_eq] at hl
    split at hl
    · rename_i hk; rw [hk]; exact ⟨hK, hkey⟩
    · exact h.prio hl
  deprio := h.deprio

/-- One more deprioritised bitmap for a key that has one in either group. -/
theorem Touched.insertDeprio (hkey : prioAt x kv key ≠ none ∨ deprioAt x kv key ≠ none) :
    Touched x kv K { entries with
      deprioritizedMissingDataEntries :=
        entries.deprioritizedMissingDataEntries.insert key b } where
  prio := h.prio
  deprio hl := by
    rw [GoMap.lookup_insert_eq] at hl
    split at hl
    · rename_i hk; rw [hk]; exact ⟨hK, hkey⟩
    · exact h.deprio hl

end

theorem Touched.reflectReconciledData_loop {dks : List DataKey}
    (h : Touched x kv K entries)
    (hK : ∀ dk ∈ dks, K dk.toNsCollBlk)
    (hloop : forEach (reflectReconciledData x kv) entries dks = .ok entries') :
    Touched x kv K entries' := by
  refine forEach_invariant (fun a dk a' hdk ha hstep => ?_) h hloop
  rcases reflectReconciledData_ok hstep with ⟨hbit, rfl⟩ | ⟨_, hbit, rfl⟩ | ⟨_, _, rfl⟩
  · exact ha.insertPrio (hK dk hdk) (ha.prioNow_ne (ne_none_of_hasBit hbit))
  · exact ha.insertDeprio (hK dk hdk) (ha.deprioNow_ne (ne_none_of_hasBit hbit))
  · exact ha

theorem Touched.reflectPriority_loop {els : List (NsCollBlk × UInt64)}
    (h : Touched x kv K entries)
    (hK : ∀ el ∈ els, K el.1)
    (hloop : forEach (reflectPriority x kv) entries els = .ok entries') :
    Touched x kv K entries' := by
  refine forEach_invariant (fun a el a' hel ha hstep => ?_) h hloop
  rcases reflectPriority_ok hstep with ⟨_, rfl⟩ | ⟨prio, hsome, rfl⟩
  · exact ha
  · have hne : prioAt x kv el.1 ≠ none := ha.prioNow_ne (by rw [hsome]; exact nofun)
    exact (ha.insertPrio (hK el hel) hne).insertDeprio (hK el hel) (.inl hne)

end

/-! ## §4 The list of updated blocks -/

/-- The list can be read back, and is the sorted one as long as its length is a Go
`int`. -/
theorem getLastUpdatedOldBlocksList_encode {x : Externals} {kv : Kv} {blks : List UInt64}
    (h : kv.lookup lastUpdatedOldBlocksKey = some (encodeLastUpdatedOldBlocksList x blks)) :
    ∃ l, getLastUpdatedOldBlocksList x kv = .ok l ∧
      (blks.length < 2 ^ 63 → l = blks.insertionSort (fun a b => a ≤ b)) := by
  set sorted := blks.insertionSort (fun a b => a ≤ b) with hsorted
  have hlen : sorted.length = blks.length := List.length_insertionSort _ blks
  -- the count that is read is at most the number of blocks written
  have hread : ∀ count ≤ sorted.length,
      ∃ rest, x.varint.decodeN count (sorted.flatMap x.varint.encode) =
        .ok (sorted.take count, rest) := by
    intro count hle
    have hsplit : sorted.flatMap x.varint.encode =
        (sorted.take count).flatMap x.varint.encode ++
          (sorted.drop count).flatMap x.varint.encode := by
      rw [← List.flatMap_append, List.take_append_drop]
    refine ⟨(sorted.drop count).flatMap x.varint.encode, ?_⟩
    have hdec := x.varint.decodeN_flatMap (sorted.take count)
      ((sorted.drop count).flatMap x.varint.encode)
    rwa [List.length_take_of_le hle, ← hsplit] at hdec
  obtain ⟨count, hcount⟩ : ∃ count, count = if (UInt64.ofNat sorted.length).toNat < 2 ^ 63 then
    (UInt64.ofNat sorted.length).toNat else 0 := ⟨_, rfl⟩
  have hle : count ≤ sorted.length := by
    rw [hcount, UInt64.toNat_ofNat']
    split
    · exact Nat.mod_le _ _
    · exact Nat.zero_le _
  obtain ⟨rest, hdec⟩ := hread count hle
  refine ⟨sorted.take count, ?_, fun hlt => ?_⟩
  · rw [getLastUpdatedOldBlocksList, h]
    simp only [encodeLastUpdatedOldBlocksList, ← hsorted, x.varint.decode_encode,
      List.drop_left, ← hcount, hdec]
  · have hmod : (UInt64.ofNat sorted.length).toNat = sorted.length := by
      rw [UInt64.toNat_ofNat', Nat.mod_eq_of_lt (by omega)]
    rw [hcount, hmod, if_pos (by omega), List.take_length]

end FabricPeerExt.PvtData
