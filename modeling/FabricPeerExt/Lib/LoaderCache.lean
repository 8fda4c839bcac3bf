/-
FabricPeerExt.Lib.LoaderCache — a cache with a loader that may fail; an error is not kept.
-/
import FabricPeerExt.Lib.KeyValue

namespace FabricPeerExt.Lib.GoMap

variable {κ ν ε : Type} [DecidableEq κ] (loader : κ → Except ε ν)

def cached (m : GoMap κ ν) (k : κ) : Except ε ν :=
  match m.lookup k with
  | some v => .ok v
  | none => loader k

def afterGet (m : GoMap κ ν) (k : κ) : GoMap κ ν :=
  match m.lookup k, loader k with
  | none, .ok v => m.insert k v
  | _, _ => m

def getOrLoad (m : GoMap κ ν) (k : κ) : Except ε ν × GoMap κ ν :=
  (m.cached loader k, m.afterGet loader k)

def Coherent (m : GoMap κ ν) : Prop := ∀ k v, m.lookup k = some v → loader k = .ok v

variable {loader} {m : GoMap κ ν} {k k' : κ}

theorem lookup_afterGet :
    (m.afterGet loader k).lookup k' = m.lookup k' ∨
      k' = k ∧ m.lookup k' = none ∧ ∃ v, loader k' = .ok v ∧
        (m.afterGet loader k).lookup k' = some v := by
  rw [afterGet]
  cases hm : m.lookup k with
  | some v => exact .inl rfl
  | none =>
    cases hl : loader k with
    | error e => exact .inl rfl
    | ok v =>
      by_cases hk : k' = k
      · subst hk
        refine .inr ⟨rfl, hm, v, hl, ?_⟩
        rw [lookup_insert_eq, if_pos rfl]
      · refine .inl ?_
        rw [lookup_insert_eq, if_neg hk]

/-- Reading does not change what a reader gets. -/
@[simp] theorem cached_afterGet : (m.afterGet loader k).cached loader k' = m.cached loader k' := by
  rcases @lookup_afterGet _ _ _ _ loader m k k' with
    h | ⟨-, hnone, v, hv, h⟩
  · rw [cached, cached, h]
  · rw [cached, cached, h, hnone, hv]

theorem Coherent.cached_eq (h : m.Coherent loader) : m.cached loader k = loader k := by
  rw [cached]
  cases hm : m.lookup k with
  | some v => exact (h k v hm).symm
  | none => rfl

theorem Coherent.afterGet (h : m.Coherent loader) : (m.afterGet loader k).Coherent loader := by
  intro k' v hv
  rcases @lookup_afterGet _ _ _ _ loader m k k' with
    hsame | ⟨-, -, w, hw, hnew⟩
  · exact h k' v (hsame ▸ hv)
  · rw [hnew] at hv
    rw [hw, Option.some.inj hv]

theorem coherent_empty : (∅ : GoMap κ ν).Coherent loader := by
  intro k v h
  cases h

end FabricPeerExt.Lib.GoMap
