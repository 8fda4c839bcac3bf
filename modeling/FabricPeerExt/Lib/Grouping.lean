/-
FabricPeerExt.Lib.Grouping — groups built from a stream: an element with the key of the last group
joins it, any other one starts a new group.
-/
import Mathlib.Data.List.Chain
import Mathlib.Data.List.Flatten

namespace FabricPeerExt.Lib

/-- How elements of `α` are put into groups `γ` with keys `κ`: `members` lists what a
group holds, in order, and an element is shown as its `emit`. -/
structure Grouping (κ α β γ : Type) where
  keyOf : α → κ
  emit : α → β
  key : γ → κ
  members : γ → List β
  start : α → γ
  extend : γ → α → γ
  key_start : ∀ a, key (start a) = keyOf a
  key_extend : ∀ g a, key (extend g a) = key g
  members_start : ∀ a, members (start a) = [emit a]
  members_extend : ∀ {g a}, key g = keyOf a → members (extend g a) = members g ++ [emit a]

namespace Grouping

section
variable {κ α β γ : Type} [DecidableEq κ] (G : Grouping κ α β γ)

def push (gs : List γ) (a : α) : List γ :=
  match gs.getLast? with
  | none => [G.start a]
  | some g => if G.key g = G.keyOf a then gs.dropLast ++ [G.extend g a] else gs ++ [G.start a]

def pushAll (gs : List γ) (as : List α) : List γ := as.foldl G.push gs

theorem push_nil (a : α) : G.push [] a = [G.start a] := rfl

theorem push_concat (gs : List γ) (g : γ) (a : α) :
    G.push (gs ++ [g]) a =
      if G.key g = G.keyOf a then gs ++ [G.extend g a] else gs ++ [g] ++ [G.start a] := by
  simp [push]

/-- The groups hold the elements in the order of the stream. -/
theorem flatMap_push (gs : List γ) (a : α) :
    (G.push gs a).flatMap G.members = gs.flatMap G.members ++ [G.emit a] := by
  rcases List.eq_nil_or_concat gs with rfl | ⟨gs, g, rfl⟩
  · simp [push_nil, G.members_start]
  · rw [List.concat_eq_append, push_concat]
    split
    · rename_i hkey
      simp [G.members_extend hkey]
    · simp [G.members_start]

theorem flatMap_pushAll (gs : List γ) (as : List α) :
    (G.pushAll gs as).flatMap G.members = gs.flatMap G.members ++ as.map G.emit := by
  induction as generalizing gs with
  | nil => simp [pushAll]
  | cons a as ih =>
    rw [pushAll, List.foldl_cons, ← pushAll, ih, flatMap_push, List.append_assoc, List.map_cons,
      List.singleton_append]

/-- What holds of every group, if a new group has it and a group that grows keeps it. -/
theorem forall_pushAll {P : γ → Prop} (hstart : ∀ a, P (G.start a))
    (hextend : ∀ g a, G.key g = G.keyOf a → P g → P (G.extend g a)) {gs : List γ}
    (hgs : ∀ g ∈ gs, P g) (as : List α) : ∀ g ∈ G.pushAll gs as, P g := by
  induction as generalizing gs with
  | nil => exact hgs
  | cons a as ih =>
    refine ih fun g hg => ?_
    rcases List.eq_nil_or_concat gs with rfl | ⟨gs, last, rfl⟩
    · rw [push_nil] at hg
      rw [List.mem_singleton.mp hg]
      exact hstart a
    · rw [List.concat_eq_append] at hg hgs
      rw [push_concat] at hg
      split at hg
      · rename_i hkey
        rcases List.mem_append.mp hg with hg | hg
        · exact hgs g (List.mem_append_left _ hg)
        · rw [List.mem_singleton.mp hg]
          exact hextend last a hkey (hgs last (by simp))
      · rcases List.mem_append.mp hg with hg | hg
        · exact hgs g hg
        · rw [List.mem_singleton.mp hg]
          exact hstart a

/-- No group is empty, and neighbours have different keys. -/
structure Maximal (gs : List γ) : Prop where
  chain : gs.IsChain fun g g' => G.key g ≠ G.key g'
  members_ne : ∀ g ∈ gs, G.members g ≠ []

variable {G}

theorem Maximal.push {gs : List γ} (h : G.Maximal gs) (a : α) : G.Maximal (G.push gs a) where
  chain := by
    rcases List.eq_nil_or_concat gs with rfl | ⟨gs, g, rfl⟩
    · exact List.isChain_singleton _
    · have hchain := h.chain
      rw [List.concat_eq_append] at hchain ⊢
      rw [push_concat]
      split
      · -- the key of the last group stays the same
        rw [List.isChain_append] at hchain ⊢
        refine ⟨hchain.1, List.isChain_singleton _, fun g' hg' y hy => ?_⟩
        rw [← Option.some.inj hy, G.key_extend]
        exact hchain.2.2 g' hg' g rfl
      · rename_i hkey
        rw [List.isChain_append]
        refine ⟨hchain, List.isChain_singleton _, fun g' hg' y hy => ?_⟩
        rw [List.getLast?_concat] at hg'
        rw [← Option.some.inj hg', ← Option.some.inj hy, G.key_start]
        exact hkey
  members_ne g hg := by
    have hall := G.forall_pushAll (P := fun g => G.members g ≠ [])
      (fun a => by simp [G.members_start]) (fun g a hkey _ => by simp [G.members_extend hkey])
      h.members_ne [a]
    exact hall g hg

theorem maximal_pushAll (as : List α) {gs : List γ} (h : G.Maximal gs) :
    G.Maximal (G.pushAll gs as) := by
  induction as generalizing gs with
  | nil => exact h
  | cons a as ih => exact ih (h.push a)

omit [DecidableEq κ] in
/-- Over a sorted stream every key has one group, and the groups are sorted too. -/
theorem Maximal.pairwise {gs : List γ} (h : G.Maximal gs) {R : β → β → Prop}
    {lt : κ → κ → Prop} (htrans : ∀ {a b c}, lt a b → lt b c → lt a c)
    (hsorted : (gs.flatMap G.members).Pairwise R)
    (hR : ∀ g ∈ gs, ∀ g' ∈ gs, ∀ b ∈ G.members g, ∀ b' ∈ G.members g', R b b' →
      G.key g = G.key g' ∨ lt (G.key g) (G.key g')) :
    gs.Pairwise fun g g' => lt (G.key g) (G.key g') := by
  have hle : gs.Pairwise fun g g' => G.key g = G.key g' ∨ lt (G.key g) (G.key g') := by
    refine (List.pairwise_flatMap.mp hsorted).2.imp_of_mem fun {g g'} hg hg' hall => ?_
    obtain ⟨b, hb⟩ := List.exists_mem_of_ne_nil _ (h.members_ne g hg)
    obtain ⟨b', hb'⟩ := List.exists_mem_of_ne_nil _ (h.members_ne g' hg')
    exact hR g hg g' hg' b hb b' hb' (hall b hb b' hb')
  have : Trans (fun g g' : γ => lt (G.key g) (G.key g')) (fun g g' => lt (G.key g) (G.key g'))
    (fun g g' => lt (G.key g) (G.key g')) := ⟨htrans⟩
  rw [← List.isChain_iff_pairwise, List.isChain_iff_getElem]
  exact fun i hi => (hle.isChain.getElem i hi).resolve_left (h.chain.getElem i hi)

end

end Grouping

end FabricPeerExt.Lib
