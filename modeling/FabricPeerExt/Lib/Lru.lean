/-
FabricPeerExt.Lib.Lru — a cache of bounded size that evicts the least recently used entry.
-/
import Mathlib.Data.List.Basic

namespace FabricPeerExt.Lib

/-- The entries, the most recently used one first. -/
structure Lru (κ ν : Type) where
  size : Nat
  entries : List (κ × ν)

namespace Lru

variable {κ ν : Type} [DecidableEq κ]

/-- The entry becomes the most recent one; the oldest entry goes when the cache is full. -/
def set (c : Lru κ ν) (k : κ) (v : ν) : Lru κ ν :=
  { c with entries := ((k, v) :: c.entries.filter fun e => e.1 ≠ k).take c.size }

def find (c : Lru κ ν) (k : κ) : Option ν := (c.entries.find? fun e => e.1 = k).map Prod.snd

theorem mem_set {c : Lru κ ν} {k : κ} {v : ν} {e : κ × ν} (h : e ∈ (c.set k v).entries) :
    e = (k, v) ∨ (e ∈ c.entries ∧ e.1 ≠ k) := by
  rcases List.mem_cons.mp (List.mem_of_mem_take h) with rfl | hmem
  · exact Or.inl rfl
  · obtain ⟨hold, hne⟩ := List.mem_filter.mp hmem
    exact Or.inr ⟨hold, of_decide_eq_true hne⟩

theorem mem_of_find {c : Lru κ ν} {k : κ} {v : ν} (h : c.find k = some v) :
    (k, v) ∈ c.entries := by
  obtain ⟨e, he, rfl⟩ := Option.map_eq_some_iff.mp h
  have hk := List.find?_some he
  obtain rfl : e.1 = k := of_decide_eq_true hk
  exact List.mem_of_find?_eq_some he

end Lru

end FabricPeerExt.Lib
