/-
FabricPeerExt.Lib.KeyValue — Go maps, write batches and ordered scans. `GoMap κ ν` is Mathlib's
association list without duplicate keys.
-/
import FabricPeerExt.Lib.ByteOrder
import Mathlib.Data.List.AList

namespace FabricPeerExt.Lib

/-! ## §1 Maps -/

abbrev GoMap (κ ν : Type) := AList (fun _ : κ => ν)

namespace GoMap

variable {κ ν : Type}

def toList (m : GoMap κ ν) : List (κ × ν) := m.entries.map fun e => (e.1, e.2)

@[simp] theorem toList_empty : (∅ : GoMap κ ν).toList = [] := rfl

variable (m : GoMap κ ν)

theorem map_fst_toList : m.toList.map Prod.fst = m.keys := by
  rw [toList, List.map_map]
  rfl

/-- The keys of the pairs are distinct. -/
theorem nodup_toList : (m.toList.map Prod.fst).Nodup := by
  rw [map_fst_toList]
  exact m.keys_nodup

variable [DecidableEq κ]

theorem mem_toList {m : GoMap κ ν} {k : κ} {v : ν} :
    (k, v) ∈ m.toList ↔ m.lookup k = some v := by
  rw [← Option.mem_def, AList.mem_lookup_iff, toList, List.mem_map]
  constructor
  · rintro ⟨⟨k', v'⟩, hmem, heq⟩
    obtain ⟨rfl, rfl⟩ := Prod.mk.inj heq
    exact hmem
  · exact fun hmem => ⟨⟨k, v⟩, hmem, rfl⟩

/-- Two keys at once: the updated one reads the new value, every other one the
old value. -/
theorem lookup_insert_eq (k k' : κ) (v : ν) :
    (m.insert k v).lookup k' = if k' = k then some v else m.lookup k' := by
  split
  · rename_i h; subst h; exact AList.lookup_insert m
  · rename_i h; exact AList.lookup_insert_ne h

theorem lookup_erase_eq (k k' : κ) :
    (m.erase k).lookup k' = if k' = k then none else m.lookup k' := by
  split
  · rename_i h; subst h; exact AList.lookup_erase k' m
  · rename_i h; exact AList.lookup_erase_ne h

def insertAll (m : GoMap κ ν) (l : List (κ × ν)) : GoMap κ ν :=
  l.foldl (fun acc p => acc.insert p.1 p.2) m

/-- The last value a list of assignments gives a key. -/
def lastValue (k : κ) : List (κ × ν) → Option ν
  | [] => none
  | p :: l => (lastValue k l).or (if p.1 = k then some p.2 else none)

theorem lookup_insertAll (l : List (κ × ν)) (k : κ) :
    (m.insertAll l).lookup k = (lastValue k l).or (m.lookup k) := by
  induction l generalizing m with
  | nil => rfl
  | cons p l ih =>
    have hstep : m.insertAll (p :: l) = insertAll (m.insert p.1 p.2) l := rfl
    rw [hstep, ih, lookup_insert_eq, lastValue, Option.or_assoc]
    by_cases h : p.1 = k
    · simp [h]
    · simp [h, Ne.symm h]

theorem mem_of_lastValue {k : κ} {v : ν} : ∀ {l : List (κ × ν)},
    lastValue k l = some v → (k, v) ∈ l
  | p :: l, h => by
    rw [lastValue, Option.or_eq_some_iff] at h
    rcases h with h | ⟨_, h⟩
    · exact List.mem_cons_of_mem p (mem_of_lastValue h)
    · split at h
      · rename_i hk
        obtain rfl : p.2 = v := Option.some.inj h
        subst hk
        exact List.mem_cons_self
      · simp at h

theorem lastValue_eq_none {k : κ} : ∀ {l : List (κ × ν)},
    lastValue k l = none ↔ k ∉ l.map Prod.fst
  | [] => by simp [lastValue]
  | p :: l => by
    rw [lastValue, Option.or_eq_none_iff, lastValue_eq_none (l := l)]
    simp only [ite_eq_right_iff, reduceCtorEq, imp_false, List.map_cons, List.mem_cons, not_or]
    exact ⟨fun h => ⟨fun he => h.2 he.symm, h.1⟩, fun h => ⟨h.2, fun he => h.1 he.symm⟩⟩

/-- When a key is assigned one value only, that value is what it ends with. -/
theorem lastValue_of_mem {k : κ} {v : ν} {l : List (κ × ν)} (hmem : (k, v) ∈ l)
    (hone : ∀ w, (k, w) ∈ l → w = v) : lastValue k l = some v := by
  cases h : lastValue k l with
  | none => exact absurd (List.mem_map.mpr ⟨(k, v), hmem, rfl⟩) (lastValue_eq_none.mp h)
  | some w => rw [hone w (mem_of_lastValue h)]

theorem lastValue_map {ν' : Type} (g : κ → ν → ν') (k : κ) :
    ∀ l : List (κ × ν), lastValue k (l.map fun p => (p.1, g p.1 p.2)) = (lastValue k l).map (g k)
  | [] => rfl
  | p :: l => by
    rw [List.map_cons, lastValue, lastValue_map g k l, lastValue]
    by_cases h : p.1 = k
    · subst h
      cases lastValue p.1 l <;> simp
    · simp [h]

theorem lastValue_append (k : κ) (l l' : List (κ × ν)) :
    lastValue k (l ++ l') = (lastValue k l').or (lastValue k l) := by
  induction l with
  | nil => simp [lastValue]
  | cons p l ih => rw [List.cons_append, lastValue, ih, lastValue, Option.or_assoc]

/-- The pairs of a map give each key its own value. -/
theorem lastValue_toList (k : κ) : lastValue k m.toList = m.lookup k := by
  cases h : m.lookup k with
  | none =>
    rw [lastValue_eq_none, map_fst_toList]
    exact fun hk => AList.lookup_eq_none.mp h (AList.mem_keys.mpr hk)
  | some v =>
    refine lastValue_of_mem (mem_toList.mpr h) fun w hw => ?_
    rw [mem_toList, h] at hw
    exact (Option.some.inj hw).symm

/-- So they do in any other order. -/
theorem lastValue_perm {m : GoMap κ ν} {l : List (κ × ν)} (h : l.Perm m.toList) (k : κ) :
    lastValue k l = m.lookup k := by
  cases hv : lastValue k l with
  | none =>
    rw [lastValue_eq_none, (h.map Prod.fst).mem_iff, map_fst_toList] at hv
    exact (AList.lookup_eq_none.mpr fun hk => hv (AList.mem_keys.mp hk)).symm
  | some v => exact (mem_toList.mp (h.mem_iff.mp (mem_of_lastValue hv))).symm

def eraseAll (m : GoMap κ ν) (ks : List κ) : GoMap κ ν :=
  ks.foldl (fun acc k => acc.erase k) m

theorem lookup_eraseAll (ks : List κ) (k : κ) :
    (m.eraseAll ks).lookup k = if k ∈ ks then none else m.lookup k := by
  induction ks generalizing m with
  | nil => simp [eraseAll]
  | cons j ks ih =>
    have hstep : m.eraseAll (j :: ks) = eraseAll (m.erase j) ks := rfl
    rw [hstep, ih, lookup_erase_eq]
    by_cases hk : k ∈ ks <;> by_cases hj : k = j <;> simp [hk, hj]

/-- Deleting from a map never adds a pair. -/
theorem lookup_of_lookup_eraseAll {m : GoMap κ ν} {ks : List κ} {k : κ} {v : ν}
    (h : (m.eraseAll ks).lookup k = some v) : m.lookup k = some v ∧ k ∉ ks := by
  rw [lookup_eraseAll] at h
  split at h
  · simp at h
  · exact ⟨h, by assumption⟩

/-- A map is empty exactly when no key has a value. -/
theorem toList_eq_nil {m : GoMap κ ν} : m.toList = [] ↔ ∀ k, m.lookup k = none := by
  constructor
  · intro h k
    cases hk : m.lookup k with
    | none => rfl
    | some v => exact absurd (mem_toList.mpr hk) (by simp [h])
  · intro h
    cases hl : m.toList with
    | nil => rfl
    | cons p l =>
      have hp : (p.1, p.2) ∈ m.toList := by rw [hl]; simp
      rw [mem_toList, h p.1] at hp
      simp at hp

end GoMap

/-- An order in which a loop over a map may meet the pairs of the map. -/
structure RangeOrder (α : Type) where
  order : List α → List α
  perm : ∀ as, (order as).Perm as

def RangeOrder.listed (α : Type) : RangeOrder α := ⟨id, List.Perm.refl⟩

/-! ## §2 Batches -/

/-- A write of a batch. -/
inductive BatchOp where
  | put (key value : Bytes)
  | delete (key : Bytes)
  deriving DecidableEq, Repr

def BatchOp.key : BatchOp → Bytes
  | .put k _ => k
  | .delete k => k

def BatchOp.result : BatchOp → Option Bytes
  | .put _ v => some v
  | .delete _ => none

abbrev Kv := GoMap Bytes Bytes

abbrev Batch := List BatchOp

namespace Batch

def applyOp (m : Kv) : BatchOp → Kv
  | .put k v => m.insert k v
  | .delete k => m.erase k

def apply (b : Batch) (m : Kv) : Kv := b.foldl applyOp m

def lastWrite (k : Bytes) : Batch → Option (Option Bytes)
  | [] => none
  | op :: b => (lastWrite k b).or (if op.key = k then some op.result else none)

theorem lookup_applyOp (m : Kv) (op : BatchOp) (k : Bytes) :
    (applyOp m op).lookup k = if op.key = k then op.result else m.lookup k := by
  cases op with
  | put j v =>
    rw [applyOp, GoMap.lookup_insert_eq]
    by_cases h : k = j
    · simp [BatchOp.key, BatchOp.result, h]
    · simp [BatchOp.key, h, Ne.symm h]
  | delete j =>
    rw [applyOp, GoMap.lookup_erase_eq]
    by_cases h : k = j
    · simp [BatchOp.key, BatchOp.result, h]
    · simp [BatchOp.key, h, Ne.symm h]

/-- A reader of `k` sees the last write to `k`, or what was there before. -/
theorem lookup_apply (b : Batch) (m : Kv) (k : Bytes) :
    (apply b m).lookup k = (lastWrite k b).getD (m.lookup k) := by
  induction b generalizing m with
  | nil => rfl
  | cons op b ih =>
    have hstep : apply (op :: b) m = apply b (applyOp m op) := rfl
    rw [hstep, ih, lookup_applyOp, lastWrite]
    cases lastWrite k b with
    | some r => simp
    | none => by_cases h : op.key = k <;> simp [h]

/-- What a reader sees was there before or was put there. -/
theorem of_lookup_apply {b : Batch} {m : Kv} {k v : Bytes} (h : (apply b m).lookup k = some v) :
    m.lookup k = some v ∨ .put k v ∈ b := by
  induction b generalizing m with
  | nil => exact .inl h
  | cons op b ih =>
    rcases ih h with hm | hb
    · rw [lookup_applyOp] at hm
      split at hm
      next hkey =>
        cases op with
        | put j w =>
          obtain rfl : j = k := hkey
          obtain rfl : w = v := Option.some.inj hm
          exact .inr List.mem_cons_self
        | delete j => cases hm
      next => exact .inl hm
    · exact .inr (List.mem_cons_of_mem op hb)

theorem lastWrite_append (k : Bytes) (b c : Batch) :
    lastWrite k (b ++ c) = (lastWrite k c).or (lastWrite k b) := by
  induction b with
  | nil => simp [lastWrite]
  | cons op b ih => rw [List.cons_append, lastWrite, ih, lastWrite, Option.or_assoc]

theorem lastWrite_eq_none {k : Bytes} : ∀ {b : Batch},
    lastWrite k b = none ↔ ∀ op ∈ b, op.key ≠ k
  | [] => by simp [lastWrite]
  | op :: b => by
    rw [lastWrite, Option.or_eq_none_iff, lastWrite_eq_none (b := b)]
    simp only [ite_eq_right_iff, reduceCtorEq, imp_false, List.forall_mem_cons]
    exact And.comm

theorem mem_of_lastWrite {k : Bytes} {r : Option Bytes} : ∀ {b : Batch},
    lastWrite k b = some r → ∃ op ∈ b, op.key = k ∧ op.result = r
  | op :: b, h => by
    rw [lastWrite, Option.or_eq_some_iff] at h
    rcases h with h | ⟨_, h⟩
    · obtain ⟨op', hmem, hk, hr⟩ := mem_of_lastWrite h
      exact ⟨op', List.mem_cons_of_mem op hmem, hk, hr⟩
    · split at h
      · rename_i hk
        exact ⟨op, List.mem_cons_self, hk, Option.some.inj h⟩
      · simp at h

/-- When all writes to a key leave the same thing there, so does the batch. -/
theorem lastWrite_of_mem {k : Bytes} {op : BatchOp} {b : Batch} (hmem : op ∈ b)
    (hk : op.key = k) (hone : ∀ op' ∈ b, op'.key = k → op'.result = op.result) :
    lastWrite k b = some op.result := by
  cases h : lastWrite k b with
  | none => exact absurd hk (lastWrite_eq_none.mp h op hmem)
  | some r =>
    obtain ⟨op', hmem', hk', hr⟩ := mem_of_lastWrite h
    rw [← hr, hone op' hmem' hk']

/-- A key no write names keeps its value. -/
theorem lookup_apply_of_notMem {b : Batch} {k : Bytes} (h : ∀ op ∈ b, op.key ≠ k) (m : Kv) :
    (apply b m).lookup k = m.lookup k := by
  rw [lookup_apply, lastWrite_eq_none.mpr h]
  rfl

/-- A batch that puts every pair of a map. -/
theorem lookup_apply_puts (m kv : Kv) (k : Bytes) :
    (apply (m.toList.map fun p => BatchOp.put p.1 p.2) kv).lookup k =
      (m.lookup k).or (kv.lookup k) := by
  have hfold : ∀ (l : List (Bytes × Bytes)) (kv : Kv),
      apply (l.map fun p => BatchOp.put p.1 p.2) kv = GoMap.insertAll kv l := by
    intro l
    induction l with
    | nil => intro kv; rfl
    | cons p l ih => intro kv; exact ih (kv.insert p.1 p.2)
  rw [hfold, GoMap.lookup_insertAll, GoMap.lastValue_toList]

/-- A batch of deletions takes away the keys it names. -/
theorem lookup_apply_deletes {b : Batch} (hb : ∀ op ∈ b, op.result = none) (m : Kv)
    (k v : Bytes) :
    (apply b m).lookup k = some v ↔ m.lookup k = some v ∧ ∀ op ∈ b, op.key ≠ k := by
  rw [lookup_apply]
  cases hw : lastWrite k b with
  | none => simpa using fun _ => lastWrite_eq_none.mp hw
  | some r =>
    obtain ⟨op, hmem, hk, rfl⟩ := mem_of_lastWrite hw
    rw [hb op hmem, Option.getD_some]
    exact ⟨fun h => (by cases h), fun h => absurd hk (h.2 op hmem)⟩

theorem apply_append (b c : Batch) (m : Kv) : apply (b ++ c) m = apply c (apply b m) :=
  List.foldl_append

end Batch

/-! ## §3 Scans -/

/-- The pairs an iterator over `[startKey, endKey)` delivers, in byte order of
the keys. The iterator reads a snapshot: the store as it was when the iterator
was opened. -/
def scan (m : Kv) (startKey endKey : Bytes) : List (Bytes × Bytes) :=
  (m.toList.filter fun e => startKey ≤ e.1 ∧ e.1 < endKey).insertionSort
    (fun a b => a.1 ≤ b.1)

theorem mem_scan {m : Kv} {startKey endKey k v : Bytes} :
    (k, v) ∈ scan m startKey endKey ↔ m.lookup k = some v ∧ startKey ≤ k ∧ k < endKey := by
  rw [scan, List.mem_insertionSort, List.mem_filter, GoMap.mem_toList]
  simp

/-- A scan delivers a key once. -/
theorem nodup_scan (m : Kv) (startKey endKey : Bytes) :
    ((scan m startKey endKey).map Prod.fst).Nodup := by
  rw [scan, ((List.perm_insertionSort _ _).map Prod.fst).nodup_iff]
  exact m.nodup_toList.sublist (List.filter_sublist.map Prod.fst)

end FabricPeerExt.Lib
