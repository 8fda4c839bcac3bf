/-
FabricPeerExt.Lib.Sample — a random choice of so many: `topUp n xs ys` takes the first of `xs`
and, if these are not enough, the first of `ys`.
-/
import Mathlib.Data.List.Nodup
import Mathlib.Data.List.Perm.Basic

namespace FabricPeerExt.Lib

/-! ## Random order -/

/-- One call of a generator of permutations. -/
structure Rand where
  perm : Nat → List Nat
  isPerm : ∀ n, (perm n).Perm (List.range n)

variable {α : Type}

/-- A list in the order of a permutation. -/
def shuffle (r : Rand) (xs : List α) : List α := (r.perm xs.length).filterMap fun i => xs[i]?

/-- A random order of `xs`: every element may come first. -/
structure Shuffles (F : Rand → List α) (xs : List α) : Prop where
  perm : ∀ r, (F r).Perm xs
  first : ∀ a ∈ xs, ∃ r rest, F r = a :: rest

theorem filterMap_range_getElem? (xs : List α) :
    (List.range xs.length).filterMap (fun i => xs[i]?) = xs := by
  induction xs with
  | nil => rfl
  | cons a xs ih =>
    rw [List.length_cons, List.range_succ_eq_map, List.filterMap_cons, List.filterMap_map]
    exact congrArg (a :: ·) ih

theorem shuffles_shuffle (xs : List α) : Shuffles (fun r => shuffle r xs) xs where
  perm := by
    intro r
    have hp := (r.isPerm xs.length).filterMap fun i => xs[i]?
    rwa [filterMap_range_getElem?] at hp
  first := by
    intro a ha
    obtain ⟨i, hi, rfl⟩ := List.mem_iff_getElem.mp ha
    -- the order that has position `i` first
    let r : Rand :=
      { perm := fun n => if i < n then i :: (List.range n).erase i else List.range n
        isPerm := by
          intro n
          split
          · next hn => exact (List.perm_cons_erase (List.mem_range.mpr hn)).symm
          · exact .refl _ }
    refine ⟨r, ((List.range xs.length).erase i).filterMap fun j => xs[j]?, ?_⟩
    have hr : r.perm xs.length = i :: (List.range xs.length).erase i := if_pos hi
    simp only [shuffle]
    rw [hr, List.filterMap_cons_some (List.getElem?_eq_getElem hi)]

/-- Leaving out some elements of a list in random order. -/
theorem Shuffles.filter {F : Rand → List α} {xs : List α} (h : Shuffles F xs)
    (p : α → Bool) : Shuffles (fun r => (F r).filter p) (xs.filter p) where
  perm := fun r => (h.perm r).filter p
  first := by
    intro a ha
    obtain ⟨hmem, hp⟩ := List.mem_filter.mp ha
    obtain ⟨r, rest, heq⟩ := h.first a hmem
    exact ⟨r, rest.filter p, by rw [heq, List.filter_cons_of_pos hp]⟩

/-! ## So many -/

def topUp (n : Nat) (xs ys : List α) : List α := xs.take n ++ ys.take (n - xs.length)

theorem length_topUp (n : Nat) (xs ys : List α) :
    (topUp n xs ys).length = min n (xs.length + ys.length) := by
  rw [topUp, List.length_append, List.length_take, List.length_take]
  omega

theorem mem_of_mem_topUp {n : Nat} {xs ys : List α} {a : α} (h : a ∈ topUp n xs ys) :
    a ∈ xs ∨ a ∈ ys := by
  rcases List.mem_append.mp h with h | h
  · exact .inl (List.mem_of_mem_take h)
  · exact .inr (List.mem_of_mem_take h)

theorem nodup_topUp {n : Nat} {xs ys : List α} (hx : xs.Nodup) (hy : ys.Nodup)
    (h : n ≤ xs.length ∨ xs.Disjoint ys) : (topUp n xs ys).Nodup := by
  refine (hx.sublist (List.take_sublist _ _)).append (hy.sublist (List.take_sublist _ _)) ?_
  rcases h with hlen | hdis
  · rw [Nat.sub_eq_zero_of_le hlen, List.take_zero]
    exact List.disjoint_nil_right _
  · exact fun a ha hb => hdis (List.mem_of_mem_take ha) (List.mem_of_mem_take hb)

/-- With `xs` not enough, all of it is taken, and what comes first in `ys`. -/
theorem not_nodup_topUp {n : Nat} {xs rest : List α} {a : α} (hlen : xs.length < n)
    (ha : a ∈ xs) : ¬ (topUp n xs (a :: rest)).Nodup := by
  obtain ⟨k, hk⟩ : ∃ k, n - xs.length = k + 1 := ⟨n - xs.length - 1, by omega⟩
  intro h
  rw [topUp, hk, List.take_succ_cons, List.take_of_length_le (Nat.le_of_lt hlen)] at h
  exact (List.nodup_append.mp h).2.2 a ha a List.mem_cons_self rfl

theorem nodup_topUp_iff {F G : Rand → List α} {xs ys : List α} (hF : Shuffles F xs)
    (hG : Shuffles G ys) (hx : xs.Nodup) (hy : ys.Nodup) (n : Nat) :
    (∀ r r', (topUp n (F r) (G r')).Nodup) ↔ n ≤ xs.length ∨ xs.Disjoint ys := by
  constructor
  · intro h
    by_contra hno
    obtain ⟨hlen, hdis⟩ := not_or.mp hno
    obtain ⟨a, hax, hay⟩ : ∃ a, a ∈ xs ∧ a ∈ ys := by
      by_contra hnone
      exact hdis fun a hax hay => hnone ⟨a, hax, hay⟩
    obtain ⟨r, _⟩ := hF.first a hax
    obtain ⟨r', rest, heq⟩ := hG.first a hay
    have hshort : (F r).length < n := by
      rw [(hF.perm r).length_eq]
      exact Nat.lt_of_not_le hlen
    have hnodup := h r r'
    rw [heq] at hnodup
    exact not_nodup_topUp hshort ((hF.perm r).mem_iff.mpr hax) hnodup
  · intro h r r'
    refine nodup_topUp ((hF.perm r).nodup_iff.mpr hx) ((hG.perm r').nodup_iff.mpr hy) ?_
    rcases h with hlen | hdis
    · left
      rw [(hF.perm r).length_eq]
      exact hlen
    · exact .inr fun a ha hb => hdis ((hF.perm r).mem_iff.mp ha) ((hG.perm r').mem_iff.mp hb)

end FabricPeerExt.Lib
