/-
FabricPeerExt.Lib.SelfLast — selection by position among parties that list themselves last: only a
single member gives all the same answer.
-/
import Mathlib.Data.List.Nodup
import Mathlib.Data.List.Perm.Basic

namespace FabricPeerExt.Lib

variable {α : Type}

def SelfLast (F : List α) (p : α) (l : List α) : Prop :=
  l.Perm F ∧ ∃ others, l = others ++ [p]

variable {F : List α}

theorem SelfLast.getElem?_ne {p : α} {l : List α} (h : SelfLast F p l) (hF : F.Nodup)
    {k : Nat} (hk : k + 1 < F.length) : ∃ q ∈ F, l[k]? = some q ∧ q ≠ p := by
  obtain ⟨hperm, others, rfl⟩ := h
  have hlen := hperm.length_eq
  simp only [List.length_append, List.length_singleton] at hlen
  have hk' : k < others.length := by omega
  have hnot : p ∉ others := fun hmem =>
    (List.nodup_append.mp (hperm.nodup_iff.mpr hF)).2.2 p hmem p (List.mem_singleton_self p) rfl
  refine ⟨others[k], hperm.mem_iff.mp (List.mem_append_left _ (List.getElem_mem hk')), ?_,
    fun heq => hnot (heq ▸ List.getElem_mem hk')⟩
  rw [List.getElem?_append_left hk', List.getElem?_eq_getElem hk']

theorem SelfLast.getElem?_last {p : α} {l : List α} (h : SelfLast F p l)
    {k : Nat} (hk : k + 1 = F.length) : l[k]? = some p := by
  obtain ⟨hperm, others, rfl⟩ := h
  have hlen := hperm.length_eq
  simp only [List.length_append, List.length_singleton] at hlen
  rw [List.getElem?_append_right (by omega), show k - others.length = 0 by omega]
  rfl

/-- Two or more members never all select the same one. The members `P` are known by the
distinct names `f`, and the lists are lists of names. -/
theorem SelfLast.not_agree {ι : Type} {P : List ι} {f : ι → α} {l : ι → List α}
    (hl : ∀ p ∈ P, SelfLast (P.map f) (f p) (l p)) (hP : (P.map f).Nodup)
    (htwo : 1 < P.length) {k : Nat} (hk : k < P.length) :
    ¬ ∀ p ∈ P, ∀ q ∈ P, (l p)[k]? = (l q)[k]? := by
  intro hagree
  have hlen : (P.map f).length = P.length := List.length_map ..
  rcases Nat.lt_or_ge (k + 1) P.length with hlt | hge
  · -- whoever is selected does not select themselves
    obtain ⟨p, hp⟩ := List.exists_mem_of_length_pos (Nat.lt_trans Nat.zero_lt_one htwo)
    obtain ⟨_, hq, hsel, -⟩ := (hl p hp).getElem?_ne hP (hlen ▸ hlt)
    obtain ⟨q, hqP, rfl⟩ := List.mem_map.mp hq
    obtain ⟨r, -, hsel', hne⟩ := (hl q hqP).getElem?_ne hP (hlen ▸ hlt)
    have hsame : some (f q) = some r := hsel.symm.trans ((hagree p hp q hqP).trans hsel')
    exact hne (Option.some.inj hsame).symm
  · -- everyone selects themselves
    have hlast : k + 1 = (P.map f).length := by omega
    have h0 : P[0] ∈ P := List.getElem_mem (by omega)
    have h1 : P[1] ∈ P := List.getElem_mem htwo
    have hsame := hagree _ h0 _ h1
    rw [(hl _ h0).getElem?_last hlast, (hl _ h1).getElem?_last hlast, Option.some.injEq,
      ← List.getElem_map f (h := hlen ▸ Nat.lt_trans Nat.zero_lt_one htwo),
      ← List.getElem_map f (h := hlen ▸ htwo), hP.getElem_inj_iff] at hsame
    exact absurd hsame (by decide)

end FabricPeerExt.Lib
