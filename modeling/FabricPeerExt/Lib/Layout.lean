/-
FabricPeerExt.Lib.Layout — a map laid out in a key-value store, each of its entries as several
pairs.
-/
import FabricPeerExt.Lib.KeyValue

namespace FabricPeerExt.Lib

/-- Which pairs stand for an entry. -/
structure Layout (κ ν : Type) where
  names : κ → List Bytes
  pieces : κ → ν → List (Bytes × Bytes)
  map_fst : ∀ k v, (pieces k v).map Prod.fst = names k
  nodup : ∀ k, (names k).Nodup

namespace Layout

variable {κ ν : Type} (l : Layout κ ν)

def puts (k : κ) (v : ν) : Batch := (l.pieces k v).map fun p => .put p.1 p.2

def deletes (k : κ) : Batch := (l.names k).map .delete

def Separates (Good : κ → Prop) : Prop :=
  ∀ {k k' : κ} {s : Bytes}, Good k → Good k' → s ∈ l.names k → s ∈ l.names k' → k = k'

variable {l}

theorem mem_names {k : κ} {v : ν} {p : Bytes × Bytes} (h : p ∈ l.pieces k v) :
    p.1 ∈ l.names k := by
  rw [← l.map_fst k v]
  exact List.mem_map.mpr ⟨p, h, rfl⟩

theorem lookup_puts {k : κ} {v : ν} {store : Kv} {s b : Bytes} :
    ((l.puts k v).apply store).lookup s = some b ↔
      (s, b) ∈ l.pieces k v ∨ s ∉ l.names k ∧ store.lookup s = some b := by
  have hone : ∀ {b b' : Bytes}, (s, b) ∈ l.pieces k v → (s, b') ∈ l.pieces k v → b = b' := by
    intro b b' hb hb'
    have hnodup := l.nodup k
    rw [← l.map_fst k v] at hnodup
    exact (Prod.mk.inj (List.inj_on_of_nodup_map hnodup hb hb' rfl)).2
  by_cases hs : s ∈ l.names k
  · rw [← l.map_fst k v] at hs
    obtain ⟨⟨s', b'⟩, hp, rfl⟩ := List.mem_map.mp hs
    have hlast : (l.puts k v).lastWrite s' = some (some b') := by
      refine Batch.lastWrite_of_mem (List.mem_map.mpr ⟨(s', b'), hp, rfl⟩) rfl ?_
      intro op hop hkey
      obtain ⟨⟨s'', b''⟩, hp'', rfl⟩ := List.mem_map.mp hop
      obtain rfl : s'' = s' := hkey
      exact congrArg some (hone hp'' hp)
    rw [Batch.lookup_apply, hlast, Option.getD_some, Option.some.injEq]
    constructor
    · rintro rfl
      exact .inl hp
    · rintro (hb | ⟨hs', -⟩)
      · exact hone hp hb
      · exact absurd (mem_names hp) hs'
  · rw [Batch.lookup_apply_of_notMem fun op hop hkey => ?_]
    · constructor
      · exact fun h => .inr ⟨hs, h⟩
      · rintro (hb | ⟨-, h⟩)
        · exact absurd (mem_names hb) hs
        · exact h
    · obtain ⟨p, hp, rfl⟩ := List.mem_map.mp hop
      obtain rfl : p.1 = s := hkey
      exact hs (mem_names hp)

theorem lookup_deletes {k : κ} {store : Kv} {s b : Bytes} :
    ((l.deletes k).apply store).lookup s = some b ↔
      store.lookup s = some b ∧ s ∉ l.names k := by
  rw [Batch.lookup_apply_deletes fun op hop => ?_]
  · refine and_congr_right fun _ => ?_
    constructor
    · exact fun h hs => h _ (List.mem_map.mpr ⟨s, hs, rfl⟩) rfl
    · intro hs op hop hkey
      obtain ⟨s', hs', rfl⟩ := List.mem_map.mp hop
      obtain rfl : s' = s := hkey
      exact hs hs'
  · obtain ⟨s', -, rfl⟩ := List.mem_map.mp hop
    rfl

variable [DecidableEq κ]

/-- The store holds exactly the pairs of the map, whose keys are good. -/
structure Lays (l : Layout κ ν) (Good : κ → Prop) (store : Kv) (m : GoMap κ ν) : Prop where
  lookup_iff : ∀ s b, store.lookup s = some b ↔
    ∃ k v, m.lookup k = some v ∧ (s, b) ∈ l.pieces k v
  good : ∀ k v, m.lookup k = some v → Good k

theorem lays_empty (Good : κ → Prop) : Lays l Good ∅ ∅ where
  lookup_iff s b := by simp
  good k v h := by simp at h

namespace Lays

variable {Good : κ → Prop} {store : Kv} {m : GoMap κ ν}

/-- Only the lookups of the map count. -/
theorem congr (h : Lays l Good store m) {m' : GoMap κ ν} (hm : ∀ k, m'.lookup k = m.lookup k) :
    Lays l Good store m' where
  lookup_iff s b := by simp only [hm, h.lookup_iff]
  good k v hk := h.good k v ((hm k).symm.trans hk)

section
variable (hl : l.Separates Good)
include hl

theorem put (h : Lays l Good store m) {k : κ} (hk : Good k) (v : ν) :
    Lays l Good ((l.puts k v).apply store) (m.insert k v) where
  lookup_iff s b := by
    rw [lookup_puts]
    constructor
    · rintro (hp | ⟨hs, hb⟩)
      · exact ⟨k, v, AList.lookup_insert m, hp⟩
      · obtain ⟨k', v', hm, hp⟩ := (h.lookup_iff s b).mp hb
        have hne : k' ≠ k := by
          rintro rfl
          exact hs (mem_names hp)
        exact ⟨k', v', by rw [GoMap.lookup_insert_eq, if_neg hne, hm], hp⟩
    · rintro ⟨k', v', hm, hp⟩
      rw [GoMap.lookup_insert_eq] at hm
      split at hm
      next heq =>
        cases hm
        exact .inl (heq ▸ hp)
      next hne =>
        refine .inr ⟨fun hs => hne (hl (h.good k' v' hm) hk (mem_names hp) hs), ?_⟩
        exact (h.lookup_iff s b).mpr ⟨k', v', hm, hp⟩
  good k' v' hm := by
    rw [GoMap.lookup_insert_eq] at hm
    split at hm
    next heq => exact heq ▸ hk
    next => exact h.good k' v' hm

theorem delete (h : Lays l Good store m) {k : κ} (hk : Good k) :
    Lays l Good ((l.deletes k).apply store) (m.erase k) where
  lookup_iff s b := by
    rw [lookup_deletes, h.lookup_iff]
    constructor
    · rintro ⟨⟨k', v', hm, hp⟩, hs⟩
      have hne : k' ≠ k := by
        rintro rfl
        exact hs (mem_names hp)
      exact ⟨k', v', by rw [GoMap.lookup_erase_eq, if_neg hne, hm], hp⟩
    · rintro ⟨k', v', hm, hp⟩
      rw [GoMap.lookup_erase_eq] at hm
      split at hm
      next => cases hm
      next hne =>
        exact ⟨⟨k', v', hm, hp⟩, fun hs => hne (hl (h.good k' v' hm) hk (mem_names hp) hs)⟩
  good k' v' hm := by
    rw [GoMap.lookup_erase_eq] at hm
    split at hm
    next => cases hm
    next => exact h.good k' v' hm

/-- Entries stored one after the other. -/
theorem putAll {kvs : List (κ × ν)} (hkvs : ∀ kv ∈ kvs, Good kv.1) (h : Lays l Good store m) :
    Lays l Good (Batch.apply (kvs.flatMap fun kv => l.puts kv.1 kv.2) store)
      (m.insertAll kvs) := by
  induction kvs generalizing store m with
  | nil => exact h
  | cons kv kvs ih =>
    rw [List.flatMap_cons, Batch.apply_append]
    obtain ⟨hkv, hkvs⟩ := List.forall_mem_cons.mp hkvs
    exact ih hkvs (h.put hl hkv kv.2)

/-- Keys deleted one after the other. -/
theorem deleteAll {ks : List κ} (hks : ∀ k ∈ ks, Good k) (h : Lays l Good store m) :
    Lays l Good (Batch.apply (ks.flatMap l.deletes) store) (m.eraseAll ks) := by
  induction ks generalizing store m with
  | nil => exact h
  | cons k ks ih =>
    rw [List.flatMap_cons, Batch.apply_append]
    obtain ⟨hk, hks⟩ := List.forall_mem_cons.mp hks
    exact ih hks (h.delete hl hk)

end

end Lays

end Layout

end FabricPeerExt.Lib
