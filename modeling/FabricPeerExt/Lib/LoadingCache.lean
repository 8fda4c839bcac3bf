/-
FabricPeerExt.Lib.LoadingCache — caches that load a default for a missing key, and keep it.
-/
import FabricPeerExt.Lib.KeyValue
import FabricPeerExt.Lib.SortedSlice

namespace FabricPeerExt.Lib.GoMap

variable {κ ν : Type} [DecidableEq κ]

def valueAt (m : GoMap κ ν) (d : ν) (k : κ) : ν := (m.lookup k).getD d

def load (m : GoMap κ ν) (d : ν) (k : κ) : GoMap κ ν :=
  match m.lookup k with
  | some _ => m
  | none => m.insert k d

section
variable (m : GoMap κ ν)
include m

theorem lookup_load (d : ν) (k k' : κ) :
    (m.load d k).lookup k' = if k' = k then some (m.valueAt d k) else m.lookup k' := by
  unfold load valueAt
  cases hk : m.lookup k with
  | some v =>
    by_cases h : k' = k
    · subst h
      simp [hk]
    · simp [h]
  | none =>
    simp only [Option.getD_none]
    exact lookup_insert_eq m k k' d

@[simp] theorem valueAt_load (d : ν) (k k' : κ) : (m.load d k).valueAt d k' = m.valueAt d k' := by
  rw [valueAt, lookup_load]
  split
  next h => rw [h, Option.getD_some]
  next => rfl

theorem valueAt_insert (d v : ν) (k k' : κ) :
    GoMap.valueAt (m.insert k v) d k' = if k' = k then v else m.valueAt d k' := by
  rw [valueAt, lookup_insert_eq]
  split
  · rfl
  · rfl

theorem valueAt_erase (d : ν) (k k' : κ) :
    GoMap.valueAt (m.erase k) d k' = if k' = k then d else m.valueAt d k' := by
  rw [valueAt, lookup_erase_eq]
  split
  · rfl
  · rfl

theorem valueAt_eraseAll (d : ν) (ks : List κ) (k : κ) :
    (m.eraseAll ks).valueAt d k = if k ∈ ks then d else m.valueAt d k := by
  rw [valueAt, lookup_eraseAll]
  split
  · rfl
  · rfl

end

/-! ## Caches of slices -/

section
variable {α : Type} (f : List α → List α)

def shrink (m : GoMap κ (List α)) (k : κ) : GoMap κ (List α) :=
  match f (m.valueAt [] k) with
  | [] => (m.load [] k).erase k
  | l => (m.load [] k).insert k l

def shrinkAll (m : GoMap κ (List α)) (ks : List κ) : GoMap κ (List α) := ks.foldl (shrink f) m

/-- No slice of the cache is empty, except under the given keys. -/
def Full (m : GoMap κ (List α)) (except : List κ) : Prop :=
  ∀ k l, k ∉ except → m.lookup k = some l → l ≠ []

theorem lookup_shrink (m : GoMap κ (List α)) (k k' : κ) :
    (m.shrink f k).lookup k' =
      if k' = k then (if f (m.valueAt [] k) = [] then none else some (f (m.valueAt [] k)))
      else m.lookup k' := by
  by_cases hk : k' = k
  · subst hk
    rw [if_pos rfl]
    unfold shrink
    split
    next h => rw [if_pos h, lookup_erase_eq, if_pos rfl]
    next h => rw [if_neg h, lookup_insert_eq, if_pos rfl]
  · rw [if_neg hk]
    unfold shrink
    split
    · rw [lookup_erase_eq, if_neg hk, lookup_load, if_neg hk]
    · rw [lookup_insert_eq, if_neg hk, lookup_load, if_neg hk]

theorem valueAt_shrink (m : GoMap κ (List α)) (k k' : κ) :
    (m.shrink f k).valueAt [] k' = if k' = k then f (m.valueAt [] k) else m.valueAt [] k' := by
  rw [valueAt, lookup_shrink]
  split
  · split
    next h => rw [h, Option.getD_none]
    next => rfl
  · rfl

/-! ## Indexes -/

open SortedSlice

section
variable [LE α]

/-- The cache is an index of the relation `R`: the slice under a key is ascending and has the
elements related to the key, and no slice is empty but those under the given keys. -/
structure Indexes (m : GoMap κ (List α)) (R : κ → α → Prop) (except : List κ) : Prop where
  ascending : ∀ k, Ascending (m.valueAt [] k)
  mem : ∀ k a, a ∈ m.valueAt [] k ↔ R k a
  full : m.Full except

theorem indexes_empty : Indexes (∅ : GoMap κ (List α)) (fun _ _ => False) [] where
  ascending _ := List.Pairwise.nil
  mem _ _ := by simp [valueAt]
  full _ _ _ h := nomatch h

variable {m : GoMap κ (List α)} {R : κ → α → Prop} {ks : List κ}

theorem Indexes.congr {R' : κ → α → Prop} (hm : Indexes m R ks) (h : ∀ k a, R k a ↔ R' k a) :
    Indexes m R' ks :=
  ⟨hm.ascending, fun k a => (hm.mem k a).trans (h k a), hm.full⟩

theorem Indexes.except (hm : Indexes m R []) (ks : List κ) : Indexes m R ks :=
  ⟨hm.ascending, hm.mem, fun k l _ => hm.full k l List.not_mem_nil⟩

theorem Indexes.lookup (hm : Indexes m R ks) {k : κ} {a : α} (h : R k a) :
    ∃ l, m.lookup k = some l ∧ a ∈ l := by
  have hmem := (hm.mem k a).mpr h
  unfold valueAt at hmem
  cases hl : m.lookup k with
  | none => simp [hl] at hmem
  | some l => exact ⟨l, rfl, by simpa [hl] using hmem⟩

/-- Reading the excepted keys keeps an index. -/
theorem Indexes.loadAll : ∀ {js : List κ} {m : GoMap κ (List α)}, Indexes m R ks →
    (∀ j ∈ js, j ∈ ks) → Indexes (js.foldl (fun c j => c.load [] j) m) R ks
  | [], _, hm, _ => hm
  | j :: js, m, hm, hjs => by
    have hstep : Indexes (m.load [] j) R ks := by
      refine ⟨fun k => ?_, fun k a => ?_, fun k l hk hl => ?_⟩
      · rw [valueAt_load]
        exact hm.ascending k
      · rw [valueAt_load]
        exact hm.mem k a
      · have hne : k ≠ j := fun h => hk (h ▸ hjs j List.mem_cons_self)
        rw [lookup_load, if_neg hne] at hl
        exact hm.full k l hk hl
    exact hstep.loadAll fun i hi => hjs i (List.mem_cons_of_mem j hi)

theorem Indexes.eraseAll (hm : Indexes m R ks) (js : List κ) :
    Indexes (m.eraseAll js) (fun k a => R k a ∧ k ∉ js) ks where
  ascending k := by
    rw [valueAt_eraseAll]
    split
    · exact List.Pairwise.nil
    · exact hm.ascending k
  mem k a := by
    rw [valueAt_eraseAll]
    split
    next h => simp [h]
    next h => simp [h, hm.mem]
  full k l hk hl := hm.full k l hk (lookup_of_lookup_eraseAll hl).1

/-- A loop of `shrink` whose function removes the elements with the property `B` removes them
from the slices under the keys of the loop. -/
theorem Indexes.shrinkAll {f : List α → List α} {B : α → Prop}
    (hf : ∀ l, Ascending l → Ascending (f l) ∧ ∀ a, a ∈ f l ↔ a ∈ l ∧ ¬ B a) :
    ∀ {ks : List κ} {m : GoMap κ (List α)} {R : κ → α → Prop}, Indexes m R ks →
      Indexes (m.shrinkAll f ks) (fun k a => R k a ∧ ¬ (k ∈ ks ∧ B a)) []
  | [], m, R, hm => hm.congr fun k a => by simp
  | j :: ks, m, R, hm => by
    have hstep : Indexes (m.shrink f j) (fun k a => R k a ∧ ¬ (k = j ∧ B a)) ks := by
      refine ⟨fun k => ?_, fun k a => ?_, fun k l hk hl => ?_⟩
      · rw [valueAt_shrink]
        split
        · exact (hf _ (hm.ascending j)).1
        · exact hm.ascending k
      · rw [valueAt_shrink]
        split
        next h =>
          subst h
          rw [(hf _ (hm.ascending k)).2, hm.mem]
          simp
        next h => simp [h, hm.mem]
      · rw [lookup_shrink] at hl
        split at hl
        next =>
          split at hl
          next => cases hl
          next hne => exact Option.some.inj hl ▸ hne
        next hne => exact hm.full k l (fun h => (List.mem_cons.mp h).elim hne hk) hl
    refine (Indexes.shrinkAll hf hstep).congr fun k a => ?_
    simp only [List.mem_cons]
    tauto

end

/-- An element added under a key. -/
theorem Indexes.addNew [LE α] [DecidableLE α] [DecidableEq α] [Std.IsLinearOrder α]
    {m m' : GoMap κ (List α)} {R : κ → α → Prop} (hm : Indexes m R []) (k : κ) (a : α)
    (hm' : ∀ j, m'.lookup j = if j = k then some (SortedSlice.addNew (m.valueAt [] k) a)
      else m.lookup j) :
    Indexes m' (fun j b => R j b ∨ (j = k ∧ b = a)) [] := by
  have hval : ∀ j, m'.valueAt [] j =
      if j = k then SortedSlice.addNew (m.valueAt [] k) a else m.valueAt [] j := by
    intro j
    rw [valueAt, hm']
    split
    · rfl
    · rfl
  refine ⟨fun j => ?_, fun j b => ?_, fun j l hj hl => ?_⟩
  · rw [hval]
    split
    · exact (hm.ascending k).addNew a
    · exact hm.ascending j
  · rw [hval]
    split
    next h => rw [mem_addNew, hm.mem, h, or_comm]; simp
    next h => rw [hm.mem]; simp [h]
  · rw [hm'] at hl
    split at hl
    next =>
      obtain rfl := Option.some.inj hl
      exact List.ne_nil_of_mem (mem_addNew.mpr (Or.inl rfl))
    next => exact hm.full j l hj hl

end

end FabricPeerExt.Lib.GoMap
