/-
FabricPeerExt.Lib.SortedSlice — slices kept in ascending order and searched by halving (Go's
`sort.Search`).
-/
import Mathlib.Data.List.Sort
import Mathlib.Data.List.Nodup

namespace FabricPeerExt.Lib

/-! ## §1 `sort.Search` -/

def searchLoop (f : Nat → Bool) : Nat → Nat → Nat → Nat
  | 0, i, _ => i
  | fuel + 1, i, j =>
      if i < j then
        let h := (i + j) / 2
        if f h then searchLoop f fuel i h else searchLoop f fuel (h + 1) j
      else i

def search (n : Nat) (f : Nat → Bool) : Nat := searchLoop f n 0 n

theorem searchLoop_spec {f : Nat → Bool} {n : Nat}
    (hmono : ∀ a b, a ≤ b → b < n → f a = true → f b = true) :
    ∀ {fuel i j : Nat}, j - i ≤ fuel → i ≤ j → j ≤ n → (∀ k < i, f k = false) →
      (∀ k, j ≤ k → k < n → f k = true) →
      (∀ k < searchLoop f fuel i j, f k = false) ∧
        (searchLoop f fuel i j < n → f (searchLoop f fuel i j) = true)
  | 0, i, j, hfuel, hij, _, hlow, hhigh =>
      ⟨hlow, fun hlt => hhigh i (by omega) hlt⟩
  | fuel + 1, i, j, hfuel, hij, hjn, hlow, hhigh => by
    rw [searchLoop]
    by_cases hlt : i < j
    · rw [if_pos hlt]
      by_cases hf : f ((i + j) / 2) = true
      · simp only [hf, if_true]
        refine searchLoop_spec hmono (by omega) (by omega) (by omega) hlow fun k hk hkn => ?_
        exact hmono _ k hk hkn hf
      · simp only [hf]
        refine searchLoop_spec hmono (by omega) (by omega) hjn (fun k hk => ?_) hhigh
        -- below the middle the predicate does not hold, or it would hold there
        refine Bool.eq_false_of_not_eq_true fun hk' => hf (hmono k _ (by omega) (by omega) hk')
    · rw [if_neg hlt]
      exact ⟨hlow, fun hn => hhigh i (by omega) hn⟩

/-- The result separates the indexes where the predicate holds from the others. -/
theorem search_spec {f : Nat → Bool} {n : Nat}
    (hmono : ∀ a b, a ≤ b → b < n → f a = true → f b = true) :
    (∀ k < search n f, f k = false) ∧ (search n f < n → f (search n f) = true) :=
  searchLoop_spec hmono (Nat.le_refl _) (Nat.zero_le n) (Nat.le_refl n)
    (fun _ hk => absurd hk (Nat.not_lt_zero _)) fun _ hk hkn => absurd hk (by omega)

/-! ## §2 Ascending slices -/

namespace SortedSlice

variable {α : Type} [LE α] [DecidableLE α] [DecidableEq α]

/-- The index of an entry. -/
def find (s : List α) (v : α) : Bool × Nat :=
  let i := search s.length fun i => s[i]?.elim true fun x => decide (v ≤ x)
  (s[i]? = some v, i)

/-- Insertion at the index that the search finds. -/
def add (s : List α) (v : α) : List α := (s ++ [v]).insertionSort (· ≤ ·)

/-- Removal of an entry that is there. -/
def remove (s : List α) (v : α) : List α :=
  if (find s v).1 then s.eraseIdx (find s v).2 else s

def removeLoop (v : α) : Nat → List α → List α
  | 0, s => s
  | fuel + 1, s => if (find s v).1 then removeLoop v fuel (s.eraseIdx (find s v).2) else s

def Ascending (s : List α) : Prop := s.Pairwise fun a b => a ≤ b ∧ a ≠ b

omit [DecidableLE α] [DecidableEq α] in
theorem Ascending.sorted {s : List α} (h : Ascending s) : s.Pairwise (· ≤ ·) := h.imp And.left

omit [DecidableLE α] [DecidableEq α] in
theorem Ascending.nodup {s : List α} (h : Ascending s) : s.Nodup := h.imp And.right

theorem getElem?_find {s : List α} {v : α} (h : (find s v).1 = true) :
    s[(find s v).2]? = some v := by
  simpa [find] using h

variable [Std.IsLinearOrder α]

/-- In an ascending slice an element is found if it is there. -/
theorem find_iff {s : List α} (hs : Ascending s) {v : α} : (find s v).1 = true ↔ v ∈ s := by
  constructor
  · exact fun h => List.mem_of_getElem? (getElem?_find h)
  · intro hmem
    obtain ⟨k, hk, hv⟩ := List.getElem_of_mem hmem
    have hle : ∀ a b (ha : a < s.length) (hb : b < s.length), a ≤ b → s[a] ≤ s[b] := by
      intro a b ha hb hab
      rcases Nat.lt_or_eq_of_le hab with hlt | rfl
      · exact List.pairwise_iff_getElem.mp hs.sorted a b ha hb hlt
      · exact Std.IsPreorder.le_refl _
    have hmono : ∀ a b, a ≤ b → b < s.length →
        (s[a]?.elim true fun x => decide (v ≤ x)) = true →
        (s[b]?.elim true fun x => decide (v ≤ x)) = true := by
      intro a b hab hb ha
      rw [List.getElem?_eq_getElem (by omega)] at ha
      rw [List.getElem?_eq_getElem hb]
      simp only [Option.elim_some, decide_eq_true_eq] at ha ⊢
      exact Std.IsPreorder.le_trans _ _ _ ha (hle a b (by omega) hb hab)
    obtain ⟨hbelow, hat⟩ := search_spec hmono
    -- the search ends at or before the element, and what it ends at is not below it
    have hend : search s.length (fun i => s[i]?.elim true fun x => decide (v ≤ x)) ≤ k := by
      by_contra hgt
      have hfalse := hbelow k (Nat.lt_of_not_le hgt)
      rw [List.getElem?_eq_getElem hk, Option.elim_some, hv] at hfalse
      exact absurd (Std.IsPreorder.le_refl v) (of_decide_eq_false hfalse)
    have hlt := Nat.lt_of_le_of_lt hend hk
    have hge := hat hlt
    rw [List.getElem?_eq_getElem hlt, Option.elim_some, decide_eq_true_eq] at hge
    have heq : s[search s.length fun i => s[i]?.elim true fun x => decide (v ≤ x)] = v :=
      Std.IsPartialOrder.le_antisymm _ _ (hv ▸ hle _ k hlt hk hend) hge
    simp only [find, decide_eq_true_eq]
    rw [List.getElem?_eq_getElem hlt, heq]

omit [DecidableEq α] [Std.IsLinearOrder α] in
theorem mem_add {s : List α} {v x : α} : x ∈ add s v ↔ x = v ∨ x ∈ s := by
  simp [add, List.mem_insertionSort, or_comm]

omit [DecidableEq α] in
theorem Ascending.add {s : List α} (hs : Ascending s) {v : α} (hv : v ∉ s) :
    Ascending (add s v) := by
  have : Std.Total fun a b : α => a ≤ b := ⟨Std.IsLinearPreorder.le_total⟩
  have : IsTrans α fun a b => a ≤ b := ⟨Std.IsPreorder.le_trans⟩
  have hsorted : (SortedSlice.add s v).Pairwise (· ≤ ·) := List.pairwise_insertionSort _ _
  have hnodup : (SortedSlice.add s v).Nodup := by
    rw [SortedSlice.add, (List.perm_insertionSort _ _).nodup_iff]
    refine List.nodup_append.mpr ⟨hs.nodup, List.nodup_singleton v, fun a ha b hb => ?_⟩
    rintro rfl
    exact hv (List.mem_singleton.mp hb ▸ ha)
  exact hsorted.and hnodup

omit [DecidableLE α] [DecidableEq α] [Std.IsLinearOrder α] in
theorem Ascending.eraseIdx {s : List α} (hs : Ascending s) (i : Nat) :
    Ascending (s.eraseIdx i) := List.Pairwise.sublist (List.eraseIdx_sublist s i) hs

omit [LE α] [DecidableLE α] [DecidableEq α] [Std.IsLinearOrder α] in
theorem mem_eraseIdx_of_nodup {s : List α} (hs : s.Nodup) {i : Nat} {v x : α}
    (hi : s[i]? = some v) : x ∈ s.eraseIdx i ↔ x ∈ s ∧ x ≠ v := by
  rw [List.mem_eraseIdx_iff_getElem?]
  constructor
  · rintro ⟨j, hne, hj⟩
    refine ⟨List.mem_of_getElem? hj, ?_⟩
    rintro rfl
    obtain ⟨hjl, hjv⟩ := List.getElem?_eq_some_iff.mp hj
    obtain ⟨hil, hiv⟩ := List.getElem?_eq_some_iff.mp hi
    exact hne (hs.getElem_inj_iff.mp (hjv.trans hiv.symm))
  · rintro ⟨hmem, hne⟩
    obtain ⟨j, hj⟩ := List.mem_iff_getElem?.mp hmem
    refine ⟨j, ?_, hj⟩
    rintro rfl
    exact hne (Option.some.inj (hj.symm.trans hi))

theorem mem_remove {s : List α} (hs : Ascending s) {v x : α} :
    x ∈ remove s v ↔ x ∈ s ∧ x ≠ v := by
  unfold remove
  split
  next h => exact mem_eraseIdx_of_nodup hs.nodup (getElem?_find h)
  next h =>
    refine ⟨fun hx => ⟨hx, ?_⟩, And.left⟩
    rintro rfl
    exact h ((find_iff hs).mpr hx)

omit [Std.IsLinearOrder α] in
theorem Ascending.remove {s : List α} (hs : Ascending s) (v : α) :
    Ascending (SortedSlice.remove s v) := by
  unfold SortedSlice.remove
  split
  · exact hs.eraseIdx _
  · exact hs

/-- After one removal the element is not found again. -/
theorem removeLoop_eq_remove {s : List α} (hs : Ascending s) (v : α) {fuel : Nat}
    (hfuel : s.length ≤ fuel) : removeLoop v fuel s = remove s v := by
  cases fuel with
  | zero =>
    obtain rfl := List.length_eq_zero_iff.mp (Nat.le_zero.mp hfuel)
    simp [removeLoop, remove, find]
  | succ fuel =>
    rw [removeLoop, remove]
    split
    next h =>
      have hnot : ¬ (find (s.eraseIdx (find s v).2) v).1 = true := by
        rw [find_iff (hs.eraseIdx _), mem_eraseIdx_of_nodup hs.nodup (getElem?_find h)]
        exact fun hc => hc.2 rfl
      cases fuel with
      | zero => rfl
      | succ fuel => rw [removeLoop, if_neg hnot]
    next => rfl

/-- A loop of removals takes away the elements of its list. -/
theorem ascending_foldl_remove : ∀ (vs : List α) {s : List α}, Ascending s →
    Ascending (vs.foldl remove s) ∧ ∀ x, x ∈ vs.foldl remove s ↔ x ∈ s ∧ ¬ x ∈ vs
  | [], _, hs => ⟨hs, fun x => by simp⟩
  | v :: vs, s, hs => by
    obtain ⟨hasc, hmem⟩ := ascending_foldl_remove vs (hs.remove v)
    refine ⟨hasc, fun x => ?_⟩
    rw [List.foldl_cons, hmem, mem_remove hs, List.mem_cons, not_or, and_assoc]

def addNew (s : List α) (v : α) : List α := if (find s v).1 then s else add s v

omit [Std.IsLinearOrder α] in
theorem mem_addNew {s : List α} {v x : α} : x ∈ addNew s v ↔ x = v ∨ x ∈ s := by
  unfold addNew
  split
  next h =>
    refine ⟨Or.inr, fun hx => hx.elim ?_ id⟩
    rintro rfl
    exact List.mem_of_getElem? (getElem?_find h)
  next => exact mem_add

theorem Ascending.addNew {s : List α} (hs : Ascending s) (v : α) :
    Ascending (SortedSlice.addNew s v) := by
  unfold SortedSlice.addNew
  split
  next => exact hs
  next h => exact hs.add fun hv => h ((find_iff hs).mpr hv)

end SortedSlice

end FabricPeerExt.Lib
