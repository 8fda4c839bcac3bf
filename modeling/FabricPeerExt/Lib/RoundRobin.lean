/-
FabricPeerExt.Lib.RoundRobin — choosing from several groups in rounds, one member of each group at
a position that counts up, unless it was taken before.
-/
import FabricPeerExt.Lib.Run
import Mathlib.Data.List.Nodup
import Mathlib.Data.List.Perm.Subperm

namespace FabricPeerExt.Lib

variable {α : Type}

def turn (g : List α) (h : Nat) : Option α := g[h % g.length]?

/-- In as many rounds as there are members each of them has its turn. -/
theorem exists_turn {g : List α} {a : α} (ha : a ∈ g) (h : Nat) :
    ∃ j < g.length, turn g (h + j) = some a := by
  obtain ⟨k, hk, rfl⟩ := List.getElem_of_mem ha
  have hpos : 0 < g.length := by omega
  have hlt := Nat.mod_lt h hpos
  -- the position `k` is reached from that of the first round, around the end if need be
  refine ⟨(k + (g.length - h % g.length)) % g.length, Nat.mod_lt _ hpos, ?_⟩
  have hindex : (h + (k + (g.length - h % g.length)) % g.length) % g.length = k := by
    rw [Nat.add_mod_mod, ← Nat.mod_add_mod h,
      show h % g.length + (k + (g.length - h % g.length)) = k + g.length by omega,
      Nat.add_mod_right, Nat.mod_eq_of_lt hk]
  rw [turn, hindex, List.getElem?_eq_getElem hk]

variable [DecidableEq α]

def addRound (max h : Nat) : List α → List (List α) → List α
  | acc, [] => acc
  | acc, g :: gs =>
    if acc.length = max then acc else
      match turn g h with
      | none => addRound max h acc gs
      | some a => if a ∈ acc then addRound max h acc gs else addRound max h (acc ++ [a]) gs

def rounds (max total : Nat) (groups : List (List α)) : Nat → Nat → List α → Option (List α)
  | 0, _, _ => none
  | fuel + 1, h, acc =>
    if acc.length < max then
      let acc' := addRound max h acc groups
      if total ≤ acc'.length then some acc' else rounds max total groups fuel (h + 1) acc'
    else some acc

/-- More fuel does not change the result. -/
theorem rounds_mono {max total : Nat} {groups : List (List α)} {r : List α} :
    ∀ {fuel fuel' h : Nat} {acc : List α}, fuel ≤ fuel' →
      rounds max total groups fuel h acc = some r → rounds max total groups fuel' h acc = some r
  | 0, _, _, _, _, hr => by cases hr
  | fuel + 1, 0, _, _, hle, _ => absurd hle (Nat.not_succ_le_zero fuel)
  | fuel + 1, fuel' + 1, h, acc, hle, hr => by
    rw [rounds] at hr ⊢
    dsimp only at hr ⊢
    split
    next hlt =>
      rw [if_pos hlt] at hr
      split
      next hall => rwa [if_pos hall] at hr
      next hall =>
        rw [if_neg hall] at hr
        exact rounds_mono (Nat.le_of_succ_le_succ hle) hr
    next hlt => rwa [if_neg hlt] at hr

/-- What holds of those chosen so far. -/
structure Chosen (max : Nat) (groups : List (List α)) (acc : List α) : Prop where
  nodup : acc.Nodup
  mem : ∀ a ∈ acc, a ∈ groups.flatten
  le : acc.length ≤ max

/-- What a round does. If there are still not enough, the one whose turn it was in each
group is among the chosen. -/
theorem addRound_spec {max h : Nat} {groups : List (List α)} : ∀ {gs : List (List α)}
    {acc : List α}, (∀ g ∈ gs, g ∈ groups) → Chosen max groups acc →
    Chosen max groups (addRound max h acc gs) ∧ acc ⊆ addRound max h acc gs ∧
      ((addRound max h acc gs).length < max →
        ∀ g ∈ gs, ∀ a, turn g h = some a → a ∈ addRound max h acc gs)
  | [], acc, _, hacc => ⟨hacc, fun _ ha => ha, fun _ g hg => by cases hg⟩
  | g :: gs, acc, hgs, hacc => by
    have hrest : ∀ g' ∈ gs, g' ∈ groups := fun g' hg' => hgs g' (List.mem_cons_of_mem _ hg')
    rw [addRound]
    by_cases hfull : acc.length = max
    · rw [if_pos hfull]
      exact ⟨hacc, fun _ ha => ha, fun hlt => absurd hfull (Nat.ne_of_lt hlt)⟩
    · rw [if_neg hfull]
      cases ht : turn g h with
      | none =>
        obtain ⟨hc, hsub, hturn⟩ := addRound_spec hrest hacc
        refine ⟨hc, hsub, fun hlt g' hg' a ha => ?_⟩
        rcases List.mem_cons.mp hg' with rfl | hg'
        · rw [ht] at ha
          cases ha
        · exact hturn hlt g' hg' a ha
      | some b =>
        dsimp only
        by_cases hb : b ∈ acc
        · rw [if_pos hb]
          obtain ⟨hc, hsub, hturn⟩ := addRound_spec hrest hacc
          refine ⟨hc, hsub, fun hlt g' hg' a ha => ?_⟩
          rcases List.mem_cons.mp hg' with rfl | hg'
          · rw [ht] at ha
            exact hsub (Option.some.inj ha ▸ hb)
          · exact hturn hlt g' hg' a ha
        · rw [if_neg hb]
          have hadd : Chosen max groups (acc ++ [b]) := by
            refine ⟨?_, fun a ha => ?_, ?_⟩
            · exact List.Nodup.append hacc.nodup (List.nodup_singleton b)
                (by simpa using hb)
            · rcases List.mem_append.mp ha with ha | ha
              · exact hacc.mem a ha
              · obtain rfl := List.mem_singleton.mp ha
                exact List.mem_flatten.mpr ⟨g, hgs g List.mem_cons_self, List.mem_of_getElem? ht⟩
            · have := hacc.le
              rw [List.length_append, List.length_singleton]
              omega
          obtain ⟨hc, hsub, hturn⟩ := addRound_spec hrest hadd
          refine ⟨hc, fun a ha => hsub (List.mem_append_left _ ha), fun hlt g' hg' a ha => ?_⟩
          rcases List.mem_cons.mp hg' with rfl | hg'
          · rw [ht] at ha
            obtain rfl := Option.some.inj ha
            exact hsub (List.mem_append_right _ (List.mem_singleton_self _))
          · exact hturn hlt g' hg' a ha

omit [DecidableEq α] in
theorem Chosen.length_le {max : Nat} {groups : List (List α)} {acc : List α}
    (h : Chosen max groups acc) : acc.length ≤ groups.flatten.length :=
  (h.nodup.subperm h.mem).length_le

omit [DecidableEq α] in
/-- After as many rounds as there are members, all members were chosen. -/
theorem length_le_of_turns {groups : List (List α)} {acc : List α} (hnodup : groups.flatten.Nodup)
    {h : Nat} (hturns : ∀ j < groups.flatten.length, ∀ g ∈ groups, ∀ a,
      turn g (h + j) = some a → a ∈ acc) : groups.flatten.length ≤ acc.length := by
  refine (hnodup.subperm fun a ha => ?_).length_le
  obtain ⟨g, hg, hag⟩ := List.mem_flatten.mp ha
  obtain ⟨j, hj, hturn⟩ := exists_turn hag h
  exact hturns j (Nat.lt_of_lt_of_le hj (List.sublist_flatten_of_mem hg).length_le) g hg a hturn

/-- The rounds from the one at position `h + i` on: whoever had a turn in a round before was
chosen, while there were not enough. -/
theorem rounds_from {max h : Nat} {groups : List (List α)} (hnodup : groups.flatten.Nodup) :
    ∀ {fuel i : Nat} {acc : List α}, i ≤ groups.flatten.length →
    groups.flatten.length < fuel + i → Chosen max groups acc →
    (acc.length < max → ∀ j < i, ∀ g ∈ groups, ∀ a, turn g (h + j) = some a → a ∈ acc) →
    ∃ r, rounds max groups.flatten.length groups fuel (h + i) acc = some r ∧
      Chosen max groups r ∧ r.length = min max groups.flatten.length
  | 0, i, acc, hi, hfuel, _, _ => absurd hfuel (by omega)
  | fuel + 1, i, acc, hi, hfuel, hacc, hturns => by
    have hlen := hacc.length_le
    have hmax := hacc.le
    rw [rounds]
    by_cases hlt : acc.length < max
    · rw [if_pos hlt]
      obtain ⟨hc, hsub, hturn⟩ :=
        @addRound_spec _ _ max (h + i) groups groups acc (fun _ hg => hg) hacc
      dsimp only
      by_cases hall : groups.flatten.length ≤ (addRound max (h + i) acc groups).length
      · rw [if_pos hall]
        have := hc.length_le
        have := hc.le
        exact ⟨_, rfl, hc, by omega⟩
      · rw [if_neg hall, Nat.add_assoc]
        have hnext : i + 1 ≤ groups.flatten.length := by
          refine Nat.lt_of_le_of_ne hi fun heq => hall ?_
          exact length_le_of_turns hnodup fun j hj g hg a ha =>
            hsub (hturns hlt j (heq ▸ hj) g hg a ha)
        refine rounds_from hnodup hnext (by omega) hc fun hlt' j hj g hg a ha => ?_
        rcases Nat.lt_succ_iff_lt_or_eq.mp hj with hj | rfl
        · exact hsub (hturns hlt j hj g hg a ha)
        · exact hturn hlt' g hg a ha
    · rw [if_neg hlt]
      exact ⟨acc, rfl, hacc, by omega⟩

/-- The rounds end, with the least of the number wanted and the number there are. -/
theorem rounds_spec {max : Nat} {groups : List (List α)} (hnodup : groups.flatten.Nodup)
    {fuel : Nat} (hfuel : groups.flatten.length < fuel) (h : Nat) :
    ∃ r, rounds max groups.flatten.length groups fuel h [] = some r ∧
      Chosen max groups r ∧ r.length = min max groups.flatten.length :=
  rounds_from hnodup (Nat.zero_le _) hfuel ⟨List.nodup_nil, fun _ ha => (by cases ha), by simp⟩
    fun _ j hj => absurd hj (Nat.not_lt_zero j)

end FabricPeerExt.Lib
