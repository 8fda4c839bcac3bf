/-
FabricPeerExt.PvtData.HelperTheorems — what the entries of a block hold.
-/
import FabricPeerExt.PvtData.Helper

namespace FabricPeerExt.PvtData

open Lib

/-! ## §1 Expiry data -/

namespace ExpiryData

variable {e : ExpiryData} {ns ns' coll coll' : GoString} {txNum txNum' : UInt64}

@[simp] theorem not_present_newExpiryData : ¬ newExpiryData.Present ns coll txNum := by
  rintro ⟨c, hc, _⟩
  cases hc

@[simp] theorem not_missing_newExpiryData : ¬ newExpiryData.Missing ns coll := by
  rintro ⟨c, hc, _⟩
  cases hc

theorem present_iff_getOrCreate :
    e.Present ns coll txNum ↔
      txNum ∈ ((e.getOrCreateCollections ns).map.lookup coll).getD [] := by
  unfold Present getOrCreateCollections
  cases e.map.lookup ns with
  | none => simp
  | some c => cases h : c.map.lookup coll <;> simp [h]

theorem missing_iff_getOrCreate :
    e.Missing ns coll ↔
      ∃ b, (e.getOrCreateCollections ns).missingDataMap.lookup coll = some b := by
  unfold Missing getOrCreateCollections
  cases e.map.lookup ns with
  | none => simp
  | some c => simp

/-- Writing the collections of one namespace. -/
theorem getOrCreateCollections_insert (c : Collections) :
    getOrCreateCollections ⟨e.map.insert ns c⟩ ns' =
      if ns' = ns then c else e.getOrCreateCollections ns' := by
  rw [getOrCreateCollections, GoMap.lookup_insert_eq]
  split <;> rfl

theorem present_addPresentData :
    (e.addPresentData ns coll txNum).Present ns' coll' txNum' ↔
      e.Present ns' coll' txNum' ∨ (ns' = ns ∧ coll' = coll ∧ txNum' = txNum) := by
  rw [present_iff_getOrCreate, present_iff_getOrCreate, addPresentData,
    getOrCreateCollections_insert]
  by_cases hns : ns' = ns
  · subst hns
    rw [if_pos rfl, GoMap.lookup_insert_eq]
    by_cases hcoll : coll' = coll
    · subst hcoll; simp
    · simp [hcoll]
  · simp [hns]

theorem missing_addPresentData :
    (e.addPresentData ns coll txNum).Missing ns' coll' ↔ e.Missing ns' coll' := by
  rw [missing_iff_getOrCreate, missing_iff_getOrCreate, addPresentData,
    getOrCreateCollections_insert]
  by_cases hns : ns' = ns
  · subst hns; simp
  · simp [hns]

theorem present_addMissingData :
    (e.addMissingData ns coll).Present ns' coll' txNum' ↔ e.Present ns' coll' txNum' := by
  rw [present_iff_getOrCreate, present_iff_getOrCreate, addMissingData,
    getOrCreateCollections_insert]
  by_cases hns : ns' = ns
  · subst hns; simp
  · simp [hns]

theorem missing_addMissingData :
    (e.addMissingData ns coll).Missing ns' coll' ↔
      e.Missing ns' coll' ∨ (ns' = ns ∧ coll' = coll) := by
  rw [missing_iff_getOrCreate, missing_iff_getOrCreate, addMissingData,
    getOrCreateCollections_insert]
  by_cases hns : ns' = ns
  · subst hns
    rw [if_pos rfl, GoMap.lookup_insert_eq]
    by_cases hcoll : coll' = coll
    · subst hcoll; simp
    · simp [hcoll]
  · simp [hns]

end ExpiryData

theorem mem_deriveDataKeys {ee : ExpiryEntry} {k : DataKey} :
    k ∈ deriveDataKeys ee ↔
      k.blkNum = ee.key.committingBlk ∧ ee.value.Present k.ns k.coll k.txNum := by
  simp only [deriveDataKeys, List.mem_flatMap, List.mem_map, Prod.exists, GoMap.mem_toList]
  constructor
  · rintro ⟨ns, c, hns, coll, l, hcoll, txNum, htx, rfl⟩
    exact ⟨rfl, c, hns, l, hcoll, htx⟩
  · rintro ⟨hb, c, hns, l, hcoll, htx⟩
    refine ⟨k.ns, c, hns, k.coll, l, hcoll, k.txNum, htx, ?_⟩
    rw [← hb]

theorem mem_deriveMissingDataKeys {ee : ExpiryEntry} {k : MissingDataKey} :
    k ∈ deriveMissingDataKeys ee ↔
      k.blkNum = ee.key.committingBlk ∧ ee.value.Missing k.ns k.coll := by
  simp only [deriveMissingDataKeys, List.mem_flatMap, List.mem_map, Prod.exists,
    GoMap.mem_toList]
  constructor
  · rintro ⟨ns, c, hns, coll, b, hcoll, rfl⟩
    exact ⟨rfl, c, hns, b, hcoll⟩
  · rintro ⟨hb, c, hns, b, hcoll⟩
    refine ⟨k.ns, c, hns, k.coll, b, hcoll, ?_⟩
    rw [← hb]

/-! ## §2 Missing data -/

def bitsOf (m : GoMap MissingDataKey BitSet) (k : MissingDataKey) : BitSet :=
  (m.lookup k).getD BitSet.empty

theorem test_setMissing (m : GoMap MissingDataKey BitSet) (key k : MissingDataKey)
    (txNum i : UInt64) :
    (bitsOf (setMissing m key txNum) k).test i = true ↔
      (bitsOf m k).test i = true ∨ (k = key ∧ i = txNum) := by
  rw [bitsOf, setMissing, GoMap.lookup_insert_eq]
  by_cases hk : k = key
  · subst hk; simp [bitsOf]
  · simp [hk, bitsOf]

def NoneEmpty (m : GoMap MissingDataKey BitSet) : Prop :=
  ∀ k b, m.lookup k = some b → b.none = false

theorem noneEmpty_setMissing {m : GoMap MissingDataKey BitSet} (h : NoneEmpty m)
    (key : MissingDataKey) (txNum : UInt64) : NoneEmpty (setMissing m key txNum) := by
  intro k b hk
  rw [setMissing, GoMap.lookup_insert_eq] at hk
  split at hk
  · obtain rfl := Option.some.inj hk
    exact BitSet.none_eq_false_of_test (i := txNum) (by simp)
  · exact h k b hk

def reportKey (committingBlk : UInt64) (r : UInt64 × MissingPvtData) : MissingDataKey :=
  { ns := r.2.namespaceName, coll := r.2.collection, blkNum := committingBlk }

def missingEntriesOf (committingBlk : UInt64) (isEligible : Bool)
    (reports : List (UInt64 × MissingPvtData)) (m : GoMap MissingDataKey BitSet) :
    GoMap MissingDataKey BitSet :=
  (reports.filter fun r => r.2.isEligible == isEligible).foldl
    (fun m r => setMissing m (reportKey committingBlk r) r.1) m

/-- The loop over the reports fills each of the two maps with its own. -/
theorem foldl_missingReports (committingBlk : UInt64) (rs : List (UInt64 × MissingPvtData))
    (acc : GoMap MissingDataKey BitSet × GoMap MissingDataKey BitSet) :
    rs.foldl (fun acc r => match r.2.isEligible with
      | true => (setMissing acc.1 (reportKey committingBlk r) r.1, acc.2)
      | false => (acc.1, setMissing acc.2 (reportKey committingBlk r) r.1)) acc =
    (missingEntriesOf committingBlk true rs acc.1,
      missingEntriesOf committingBlk false rs acc.2) := by
  induction rs generalizing acc with
  | nil => rfl
  | cons r rs ih =>
    rw [List.foldl_cons, ih]
    cases h : r.2.isEligible <;> simp [missingEntriesOf, h]

/-- Each map takes the reports of its eligibility and is blind to the others. -/
theorem prepareMissingDataEntries_eq (committingBlk : UInt64) (missing : TxMissingPvtDataMap) :
    prepareMissingDataEntries committingBlk missing =
      (missingEntriesOf committingBlk true (missingReports missing) ∅,
        missingEntriesOf committingBlk false (missingReports missing) ∅) :=
  foldl_missingReports committingBlk (missingReports missing) (∅, ∅)

theorem test_missingEntriesOf (committingBlk : UInt64) (isEligible : Bool)
    (k : MissingDataKey) (i : UInt64) (reports : List (UInt64 × MissingPvtData)) :
    ∀ m, (bitsOf (missingEntriesOf committingBlk isEligible reports m) k).test i = true ↔
      (bitsOf m k).test i = true ∨ (k.blkNum = committingBlk ∧
        (i, { namespaceName := k.ns, collection := k.coll, isEligible := isEligible }) ∈
          reports) := by
  induction reports with
  | nil => intro m; simp [missingEntriesOf]
  | cons r rs ih =>
    intro m
    by_cases h : r.2.isEligible = isEligible
    · -- the report is one of this map
      have hcons : missingEntriesOf committingBlk isEligible (r :: rs) m =
          missingEntriesOf committingBlk isEligible rs
            (setMissing m (reportKey committingBlk r) r.1) := by
        simp [missingEntriesOf, h]
      rw [hcons, ih, test_setMissing, List.mem_cons, or_assoc]
      refine or_congr_right ?_
      rcases r with ⟨tx, ns, coll, elg⟩
      rcases k with ⟨kns, kcoll, kblk⟩
      simp only at h
      subst h
      simp only [reportKey, NsCollBlk.mk.injEq, Prod.mk.injEq, MissingPvtData.mk.injEq, and_true]
      tauto
    · have hcons : missingEntriesOf committingBlk isEligible (r :: rs) m =
          missingEntriesOf committingBlk isEligible rs m := by
        simp [missingEntriesOf, h]
      have hne : (i, (⟨k.ns, k.coll, isEligible⟩ : MissingPvtData)) ≠ r := by
        rintro rfl; exact h rfl
      rw [hcons, ih, List.mem_cons]
      simp [hne]

theorem noneEmpty_missingEntriesOf (committingBlk : UInt64) (isEligible : Bool)
    (reports : List (UInt64 × MissingPvtData)) :
    NoneEmpty (missingEntriesOf committingBlk isEligible reports ∅) :=
  List.foldlRecOn (motive := NoneEmpty) _ _ (fun k b hk => by cases hk)
    fun _ hm r _ => noneEmpty_setMissing hm (reportKey committingBlk r) r.1

variable {reports : List (UInt64 × MissingPvtData)}

variable {committingBlk : UInt64}

/-- A key has a bitmap only if something is reported for it. -/
theorem mem_missingEntriesOf {isEligible : Bool} :
    ∀ k ∈ missingEntriesOf committingBlk isEligible reports ∅,
      ∃ r ∈ reports, r.2.isEligible = isEligible ∧ k = reportKey committingBlk r := by
  refine List.foldlRecOn (motive := fun m : GoMap MissingDataKey BitSet => ∀ k ∈ m,
    ∃ r ∈ reports, r.2.isEligible = isEligible ∧ k = reportKey committingBlk r) _ _
    (fun k hk => absurd hk (AList.notMem_empty k)) ?_
  intro m hm r hr k hk
  rcases AList.mem_insert m |>.mp hk with rfl | hk
  · rw [List.mem_filter, beq_iff_eq] at hr
    exact ⟨r, hr.1, hr.2, rfl⟩
  · exact hm k hk

theorem reportKey_mem_missingEntriesOf {r : UInt64 × MissingPvtData} (hr : r ∈ reports) :
    reportKey committingBlk r ∈ missingEntriesOf committingBlk r.2.isEligible reports ∅ := by
  have hbit := (test_missingEntriesOf committingBlk r.2.isEligible (reportKey committingBlk r) r.1
    reports ∅).mpr (.inr ⟨rfl, hr⟩)
  rw [bitsOf] at hbit
  rw [← AList.lookup_isSome]
  cases hl : (missingEntriesOf committingBlk r.2.isEligible reports ∅).lookup
      (reportKey committingBlk r) with
  | some b => rfl
  | none => simp [hl] at hbit

theorem blkNum_of_missingEntriesOf {isEligible : Bool} :
    ∀ k ∈ missingEntriesOf committingBlk isEligible reports ∅, k.blkNum = committingBlk := by
  intro k hk
  obtain ⟨r, _, _, rfl⟩ := mem_missingEntriesOf k hk
  rfl

/-! ## §3 Expiry entries -/

def PresentIn (m : GoMap UInt64 ExpiryData) (e : UInt64) (ns coll : GoString)
    (txNum : UInt64) : Prop :=
  ∃ ed, m.lookup e = some ed ∧ ed.Present ns coll txNum

def MissingIn (m : GoMap UInt64 ExpiryData) (e : UInt64) (ns coll : GoString) : Prop :=
  ∃ ed, m.lookup e = some ed ∧ ed.Missing ns coll

section
variable {btlPolicy : BtlPolicy}

def ExpiresAt (btlPolicy : BtlPolicy) (key : NsCollBlk) (e : UInt64) : Prop :=
  btlPolicy.getExpiringBlock key.ns key.coll key.blkNum = .ok e ∧ e ≠ maxUint64

variable {de : DataEntry} {m' : GoMap UInt64 ExpiryData} {key : NsCollBlk} {n : UInt64}

theorem ExpiresAt.lt {e : UInt64} (h : ExpiresAt btlPolicy key e) :
    key.blkNum < e :=
  btlPolicy.lt_of_getExpiringBlock h.1 h.2

theorem ExpiresAt.unique {e e' : UInt64} (h : ExpiresAt btlPolicy key e)
    (h' : ExpiresAt btlPolicy key e') : e = e' :=
  Except.ok.inj (h.1.symm.trans h'.1)

theorem neverExpires_iff {e : UInt64} : neverExpires e = true ↔ e = maxUint64 := by
  simp [neverExpires]

theorem prepareExpiryEntriesFor_ok {add : ExpiryData → ExpiryData}
    {m : GoMap UInt64 ExpiryData} (h : prepareExpiryEntriesFor btlPolicy add key m = .ok m') :
    ((∀ e, ¬ ExpiresAt btlPolicy key e) ∧ m' = m) ∨
      ∃ e, ExpiresAt btlPolicy key e ∧ m' = m.insert e (add (getOrCreateExpiryData m e)) := by
  unfold prepareExpiryEntriesFor at h
  cases he : btlPolicy.getExpiringBlock key.ns key.coll key.blkNum with
  | error err => simp [he] at h
  | ok e =>
    simp only [he] at h
    by_cases hmax : e = maxUint64
    · rw [if_pos (neverExpires_iff.mpr hmax)] at h
      refine .inl ⟨fun e' h' => h'.2 ?_, (Except.ok.inj h).symm⟩
      rw [← Except.ok.inj (he.symm.trans h'.1), hmax]
    · rw [if_neg (mt neverExpires_iff.mp hmax)] at h
      exact .inr ⟨e, ⟨he, hmax⟩, (Except.ok.inj h).symm⟩

variable {m : GoMap UInt64 ExpiryData} {des : List DataEntry}
    {elg inelg : GoMap MissingDataKey BitSet} {pvtData : List TxPvtData}

/-- The expiry data a reader finds after an insertion that extends what was there. -/
theorem lookup_insert_getOrCreate (P : ExpiryData → Prop) {Q : Prop}
    (add : ExpiryData → ExpiryData) {e e' : UInt64}
    (hnew : ¬ P ExpiryData.newExpiryData) (hadd : ∀ ed, P (add ed) ↔ P ed ∨ Q) :
    (∃ ed, (m.insert e (add (getOrCreateExpiryData m e))).lookup e' = some ed ∧ P ed) ↔
      (∃ ed, m.lookup e' = some ed ∧ P ed) ∨ (e' = e ∧ Q) := by
  rw [GoMap.lookup_insert_eq]
  by_cases he : e' = e
  · subst he
    simp only [if_true, Option.some.injEq, exists_eq_left', hadd, true_and]
    refine or_congr_left ?_
    cases hl : m.lookup e' with
    | none => simp [getOrCreateExpiryData, hl, hnew]
    | some ed => simp [getOrCreateExpiryData, hl]
  · simp [he]

section
variable {m : GoMap UInt64 ExpiryData} {k : DataKey}
  (h : prepareExpiryEntriesForPresentData btlPolicy m k = .ok m') (e : UInt64) (ns coll : GoString)
include h e ns coll

theorem presentIn_forPresentData (txNum : UInt64) :
    PresentIn m' e ns coll txNum ↔ PresentIn m e ns coll txNum ∨
      (ExpiresAt btlPolicy k.toNsCollBlk e ∧ ns = k.ns ∧ coll = k.coll ∧ txNum = k.txNum) := by
  rcases prepareExpiryEntriesFor_ok h with ⟨hno, rfl⟩ | ⟨e', he', rfl⟩
  · simp [hno]
  · refine (lookup_insert_getOrCreate (fun ed => ed.Present ns coll txNum)
      (fun ed => ed.addPresentData k.ns k.coll k.txNum) ExpiryData.not_present_newExpiryData
      (fun ed => ExpiryData.present_addPresentData)).trans (or_congr_right ?_)
    constructor
    · rintro ⟨rfl, hkey⟩; exact ⟨he', hkey⟩
    · rintro ⟨he, hkey⟩; exact ⟨he.unique he', hkey⟩

theorem missingIn_forPresentData : MissingIn m' e ns coll ↔ MissingIn m e ns coll := by
  rcases prepareExpiryEntriesFor_ok h with ⟨_, rfl⟩ | ⟨e', _, rfl⟩
  · rfl
  · have hadd : ∀ ed : ExpiryData,
        (ed.addPresentData k.ns k.coll k.txNum).Missing ns coll ↔ ed.Missing ns coll ∨ False :=
      fun ed => by rw [ExpiryData.missing_addPresentData, or_false]
    exact (lookup_insert_getOrCreate (fun ed => ed.Missing ns coll)
      (fun ed => ed.addPresentData k.ns k.coll k.txNum)
      ExpiryData.not_missing_newExpiryData hadd).trans
      (by simp [MissingIn])

end

section
variable {m : GoMap UInt64 ExpiryData} {k : MissingDataKey}
  (h : prepareExpiryEntriesForMissingData btlPolicy m k = .ok m') (e : UInt64) (ns coll : GoString)
include h e ns coll

theorem presentIn_forMissingData (txNum : UInt64) :
    PresentIn m' e ns coll txNum ↔ PresentIn m e ns coll txNum := by
  rcases prepareExpiryEntriesFor_ok h with ⟨_, rfl⟩ | ⟨e', _, rfl⟩
  · rfl
  · have hadd : ∀ ed : ExpiryData,
        (ed.addMissingData k.ns k.coll).Present ns coll txNum ↔
          ed.Present ns coll txNum ∨ False :=
      fun ed => by rw [ExpiryData.present_addMissingData, or_false]
    exact (lookup_insert_getOrCreate (fun ed => ed.Present ns coll txNum)
      (fun ed => ed.addMissingData k.ns k.coll)
      ExpiryData.not_present_newExpiryData hadd).trans
      (by simp [PresentIn])

theorem missingIn_forMissingData :
    MissingIn m' e ns coll ↔ MissingIn m e ns coll ∨
      (ExpiresAt btlPolicy k e ∧ ns = k.ns ∧ coll = k.coll) := by
  rcases prepareExpiryEntriesFor_ok h with ⟨hno, rfl⟩ | ⟨e', he', rfl⟩
  · simp [hno]
  · refine (lookup_insert_getOrCreate (fun ed => ed.Missing ns coll)
      (fun ed => ed.addMissingData k.ns k.coll) ExpiryData.not_missing_newExpiryData
      (fun ed => ExpiryData.missing_addMissingData)).trans (or_congr_right ?_)
    constructor
    · rintro ⟨rfl, hkey⟩; exact ⟨he', hkey⟩
    · rintro ⟨he, hkey⟩; exact ⟨he.unique he', hkey⟩

end

section
variable (h : mapByExpiringBlk btlPolicy des elg inelg = .ok m)
include h

/-- The three loops of `mapByExpiringBlk`, with the states between them. -/
theorem mapByExpiringBlk_ok :
    ∃ m1 m2,
      forEach (fun m de => prepareExpiryEntriesForPresentData btlPolicy m de.key) ∅ des =
        .ok m1 ∧
      forEach (prepareExpiryEntriesForMissingData btlPolicy) m1 elg.keys = .ok m2 ∧
      forEach (prepareExpiryEntriesForMissingData btlPolicy) m2 inelg.keys = .ok m := by
  unfold mapByExpiringBlk at h
  split at h
  · cases h
  · rename_i m1 h1
    split at h
    · cases h
    · rename_i m2 h2
      exact ⟨m1, m2, h1, h2, h⟩

/-- The expiry data of a block lists exactly the present data that expires there. -/
theorem presentIn_mapByExpiringBlk (e : UInt64) (ns coll : GoString) (txNum : UInt64) :
    PresentIn m e ns coll txNum ↔ ∃ de ∈ des, ExpiresAt btlPolicy de.key.toNsCollBlk e ∧
      ns = de.key.ns ∧ coll = de.key.coll ∧ txNum = de.key.txNum := by
  obtain ⟨m1, m2, h1, h2, h3⟩ := mapByExpiringBlk_ok h
  have hkeep : ∀ {m m' : GoMap UInt64 ExpiryData} {ks : List MissingDataKey},
      forEach (prepareExpiryEntriesForMissingData btlPolicy) m ks = .ok m' →
      (PresentIn m' e ns coll txNum ↔ PresentIn m e ns coll txNum) := by
    intro m m' ks hm
    refine forEach_invariant (P := fun a =>
      PresentIn a e ns coll txNum ↔ PresentIn m e ns coll txNum) ?_ Iff.rfl hm
    intro a k a' _ ha hstep
    exact (presentIn_forMissingData hstep e ns coll txNum).trans ha
  have hadd := forEach_accumulates
    (G := fun de : DataEntry => ExpiresAt btlPolicy de.key.toNsCollBlk e ∧
      ns = de.key.ns ∧ coll = de.key.coll ∧ txNum = de.key.txNum)
    (fun m de m' _ hstep => presentIn_forPresentData hstep e ns coll txNum) h1
  rw [hkeep h3, hkeep h2, hadd]
  simp [PresentIn]

/-- The expiry data of a block lists exactly the collections whose missing data
expires there. -/
theorem missingIn_mapByExpiringBlk (e : UInt64) (ns coll : GoString) :
    MissingIn m e ns coll ↔ ∃ k, (k ∈ elg ∨ k ∈ inelg) ∧ ExpiresAt btlPolicy k e ∧
      ns = k.ns ∧ coll = k.coll := by
  obtain ⟨m1, m2, h1, h2, h3⟩ := mapByExpiringBlk_ok h
  have hadd : ∀ {m m' : GoMap UInt64 ExpiryData} {ks : List MissingDataKey},
      forEach (prepareExpiryEntriesForMissingData btlPolicy) m ks = .ok m' →
      (MissingIn m' e ns coll ↔ MissingIn m e ns coll ∨
        ∃ k ∈ ks, ExpiresAt btlPolicy k e ∧ ns = k.ns ∧ coll = k.coll) := fun hm =>
    forEach_accumulates
      (G := fun k => ExpiresAt btlPolicy k e ∧ ns = k.ns ∧ coll = k.coll)
      (fun m k m' _ hstep => missingIn_forMissingData hstep e ns coll) hm
  have hpresent : MissingIn m1 e ns coll ↔ MissingIn ∅ e ns coll :=
    forEach_invariant (P := fun a => MissingIn a e ns coll ↔ MissingIn ∅ e ns coll)
      (fun a de a' _ ha hstep => (missingIn_forPresentData hstep e ns coll).trans ha) Iff.rfl h1
  rw [hadd h3, hadd h2, hpresent]
  simp only [MissingIn, AList.lookup_empty, reduceCtorEq, false_and, exists_false, false_or,
    AList.mem_keys, or_and_right, exists_or]

/-- Nothing is entered for a block at which the committing block's entries cannot
expire. -/
theorem lt_of_lookup_mapByExpiringBlk
    (hdes : ∀ de ∈ des, de.key.blkNum = n) (helg : ∀ k ∈ elg, k.blkNum = n)
    (hinelg : ∀ k ∈ inelg, k.blkNum = n) :
    ∀ e ed, m.lookup e = some ed → n < e ∧ e ≠ maxUint64 := by
  have hstep : ∀ {add : ExpiryData → ExpiryData} {key : NsCollBlk}
      {m m' : GoMap UInt64 ExpiryData}, key.blkNum = n →
      (∀ e ed, m.lookup e = some ed → n < e ∧ e ≠ maxUint64) →
      prepareExpiryEntriesFor btlPolicy add key m = .ok m' →
      ∀ e ed, m'.lookup e = some ed → n < e ∧ e ≠ maxUint64 := by
    intro add key m m' hkey hm hok e ed hl
    rcases prepareExpiryEntriesFor_ok hok with ⟨_, rfl⟩ | ⟨e', he', rfl⟩
    · exact hm e ed hl
    · rw [GoMap.lookup_insert_eq] at hl
      split at hl
      · rename_i heq
        subst heq
        exact ⟨hkey ▸ he'.lt, he'.2⟩
      · exact hm e ed hl
  obtain ⟨m1, m2, h1, h2, h3⟩ := mapByExpiringBlk_ok h
  have hm1 := forEach_invariant (P := fun a : GoMap UInt64 ExpiryData =>
      ∀ e ed, a.lookup e = some ed → n < e ∧ e ≠ maxUint64)
    (fun a de a' hde ha hok => hstep (hdes de hde) ha hok) (by intro e ed hl; cases hl) h1
  have hm2 := forEach_invariant
    (fun a k a' hk ha hok => hstep (helg k (AList.mem_keys.mpr hk)) ha hok) hm1 h2
  exact forEach_invariant
    (fun a k a' hk ha hok => hstep (hinelg k (AList.mem_keys.mpr hk)) ha hok) hm2 h3

/-- Expiry data is entered for a block only with something to list. -/
theorem lists_of_lookup_mapByExpiringBlk :
    ∀ e ed, m.lookup e = some ed →
      (∃ ns coll txNum, ed.Present ns coll txNum) ∨ ∃ ns coll, ed.Missing ns coll := by
  let Lists (ed : ExpiryData) : Prop :=
    (∃ ns coll txNum, ed.Present ns coll txNum) ∨ ∃ ns coll, ed.Missing ns coll
  have hstep : ∀ {add : ExpiryData → ExpiryData} {key : NsCollBlk}
      {m m' : GoMap UInt64 ExpiryData}, (∀ ed, Lists (add ed)) →
      (∀ e ed, m.lookup e = some ed → Lists ed) →
      prepareExpiryEntriesFor btlPolicy add key m = .ok m' →
      ∀ e ed, m'.lookup e = some ed → Lists ed := by
    intro add key m m' hadd hm hok e ed hl
    rcases prepareExpiryEntriesFor_ok hok with ⟨_, rfl⟩ | ⟨e', _, rfl⟩
    · exact hm e ed hl
    · rw [GoMap.lookup_insert_eq] at hl
      split at hl
      · exact Option.some.inj hl ▸ hadd _
      · exact hm e ed hl
  have hmissing : ∀ (k : MissingDataKey) (ed : ExpiryData),
      Lists (ed.addMissingData k.ns k.coll) := fun k ed =>
    .inr ⟨k.ns, k.coll, ExpiryData.missing_addMissingData.mpr (.inr ⟨rfl, rfl⟩)⟩
  obtain ⟨m1, m2, h1, h2, h3⟩ := mapByExpiringBlk_ok h
  have hm1 := forEach_invariant (P := fun a : GoMap UInt64 ExpiryData =>
      ∀ e ed, a.lookup e = some ed → Lists ed)
    (fun a de a' _ ha hok => hstep (fun ed => .inl ⟨de.key.ns, de.key.coll, de.key.txNum,
      ExpiryData.present_addPresentData.mpr (.inr ⟨rfl, rfl, rfl⟩)⟩) ha hok)
    (by intro e ed hl; cases hl) h1
  have hm2 := forEach_invariant (fun a k a' _ ha hok => hstep (hmissing k) ha hok) hm1 h2
  exact forEach_invariant (fun a k a' _ ha hok => hstep (hmissing k) ha hok) hm2 h3

/-- The policy answered for every entry. -/
theorem policy_of_mapByExpiringBlk :
    ∀ de ∈ des, ∃ e, btlPolicy.getExpiringBlock de.key.ns de.key.coll de.key.blkNum = .ok e := by
  obtain ⟨m1, m2, h1, _, _⟩ := mapByExpiringBlk_ok h
  refine forEach_mem (Q := fun (de : DataEntry) (_ : GoMap UInt64 ExpiryData) =>
    ∃ e, btlPolicy.getExpiringBlock de.key.ns de.key.coll de.key.blkNum = .ok e)
    (fun a de a' _ hstep => ?_) (fun _ _ _ _ _ hde _ => hde) h1
  unfold prepareExpiryEntriesForPresentData prepareExpiryEntriesFor at hstep
  cases he : btlPolicy.getExpiringBlock de.key.ns de.key.coll de.key.blkNum with
  | error err => simp [he] at hstep
  | ok e => exact ⟨e, rfl⟩

end

theorem mem_prepareDataEntries :
    de ∈ prepareDataEntries n pvtData ↔
      ∃ t ∈ pvtData, ∃ ns ∈ t.writeSet.nsPvtRwset, ∃ c ∈ ns.collectionPvtRwset,
        de = ⟨⟨⟨ns.namespaceName, c.collectionName, n⟩, t.seqInBlock⟩, c⟩ := by
  simp only [prepareDataEntries, List.mem_flatMap, List.mem_map, eq_comm]

theorem blkNum_of_mem_prepareDataEntries
    (h : de ∈ prepareDataEntries n pvtData) : de.key.blkNum = n := by
  obtain ⟨_, _, _, _, _, _, rfl⟩ := mem_prepareDataEntries.mp h
  rfl

/-- An entry is kept under the collection its write set names. -/
theorem collectionName_of_mem_prepareDataEntries (h : de ∈ prepareDataEntries n pvtData) :
    de.value.collectionName = de.key.coll := by
  obtain ⟨_, _, _, _, _, _, rfl⟩ := mem_prepareDataEntries.mp h
  rfl

structure EntriesOf (btlPolicy : BtlPolicy) (n : UInt64) (pvtData : List TxPvtData)
    (missing : TxMissingPvtDataMap) (se : StoreEntries) : Prop where
  dataEntries : se.dataEntries = prepareDataEntries n pvtData
  elg : se.elgMissingDataEntries = (prepareMissingDataEntries n missing).1
  inelg : se.inelgMissingDataEntries = (prepareMissingDataEntries n missing).2
  committingBlk : ∀ ee ∈ se.expiryEntries, ee.key.committingBlk = n
  lt_expiringBlk : ∀ ee ∈ se.expiryEntries, n < ee.key.expiringBlk ∧
    ee.key.expiringBlk ≠ maxUint64
  key_unique : ∀ ee ∈ se.expiryEntries, ∀ ee' ∈ se.expiryEntries, ee.key = ee'.key → ee = ee'
  present_iff : ∀ e ns coll txNum,
    (∃ ee ∈ se.expiryEntries, ee.key.expiringBlk = e ∧ ee.value.Present ns coll txNum) ↔
      ∃ de ∈ se.dataEntries, ExpiresAt btlPolicy de.key.toNsCollBlk e ∧
        ns = de.key.ns ∧ coll = de.key.coll ∧ txNum = de.key.txNum
  missing_iff : ∀ e ns coll,
    (∃ ee ∈ se.expiryEntries, ee.key.expiringBlk = e ∧ ee.value.Missing ns coll) ↔
      ∃ k, (k ∈ se.elgMissingDataEntries ∨ k ∈ se.inelgMissingDataEntries) ∧
        ExpiresAt btlPolicy k e ∧ ns = k.ns ∧ coll = k.coll
  policy : ∀ de ∈ se.dataEntries,
    ∃ e, btlPolicy.getExpiringBlock de.key.ns de.key.coll de.key.blkNum = .ok e
  lists : ∀ ee ∈ se.expiryEntries,
    (∃ ns coll txNum, ee.value.Present ns coll txNum) ∨ ∃ ns coll, ee.value.Missing ns coll

theorem prepareStoreEntries_ok {missing : TxMissingPvtDataMap} {se : StoreEntries}
    (h : prepareStoreEntries btlPolicy n pvtData missing = .ok se) :
    EntriesOf btlPolicy n pvtData missing se := by
  unfold prepareStoreEntries prepareExpiryEntries at h
  cases hm : mapByExpiringBlk btlPolicy (prepareDataEntries n pvtData)
      (prepareMissingDataEntries n missing).1 (prepareMissingDataEntries n missing).2 with
  | error err => simp [hm] at h
  | ok m =>
    simp only [hm, Except.ok.injEq] at h
    subst h
    -- an entry of the list is a pair of the map, under the committing block
    have hex : ∀ (e : UInt64) (P : ExpiryData → Prop),
        (∃ ee ∈ m.toList.map (fun p => ({ key := ⟨p.1, n⟩, value := p.2 } : ExpiryEntry)),
          ee.key.expiringBlk = e ∧ P ee.value) ↔ ∃ ed, m.lookup e = some ed ∧ P ed := by
      intro e P
      simp only [List.mem_map, Prod.exists, GoMap.mem_toList]
      constructor
      · rintro ⟨_, ⟨e', ed, hl, rfl⟩, rfl, hP⟩; exact ⟨ed, hl, hP⟩
      · rintro ⟨ed, hl, hP⟩; exact ⟨_, ⟨e, ed, hl, rfl⟩, rfl, hP⟩
    refine ⟨rfl, rfl, rfl, ?_, ?_, ?_, ?_, ?_, policy_of_mapByExpiringBlk hm, ?_⟩
    · intro ee hee
      obtain ⟨_, _, rfl⟩ := List.mem_map.mp hee
      rfl
    · intro ee hee
      obtain ⟨p, hp, rfl⟩ := List.mem_map.mp hee
      refine lt_of_lookup_mapByExpiringBlk hm (fun de => blkNum_of_mem_prepareDataEntries)
        ?_ ?_ p.1 p.2 (GoMap.mem_toList.mp hp)
      · rw [prepareMissingDataEntries_eq]; exact blkNum_of_missingEntriesOf
      · rw [prepareMissingDataEntries_eq]; exact blkNum_of_missingEntriesOf
    · intro ee hee ee' hee' heq
      obtain ⟨⟨e, ed⟩, hp, rfl⟩ := List.mem_map.mp hee
      obtain ⟨⟨e', ed'⟩, hp', rfl⟩ := List.mem_map.mp hee'
      obtain ⟨rfl, -⟩ := ExpiryKey.mk.inj heq
      rw [GoMap.mem_toList] at hp hp'
      rw [Option.some.inj (hp.symm.trans hp')]
    · intro e ns coll txNum
      exact (hex e fun ed => ed.Present ns coll txNum).trans
        (presentIn_mapByExpiringBlk hm e ns coll txNum)
    · intro e ns coll
      exact (hex e fun ed => ed.Missing ns coll).trans
        (missingIn_mapByExpiringBlk hm e ns coll)
    · intro ee hee
      obtain ⟨p, hp, rfl⟩ := List.mem_map.mp hee
      exact lists_of_lookup_mapByExpiringBlk hm p.1 p.2 (GoMap.mem_toList.mp hp)

end

end FabricPeerExt.PvtData
