/-
FabricPeerExt.Lib.OrderedMap — maps as association lists in the order of their keys.
-/
import Mathlib.Data.List.Basic
import Mathlib.Order.Lattice

namespace FabricPeerExt.Lib

abbrev OrderedMap (κ α : Type) := List (κ × α)

namespace OrderedMap

section
variable {κ α β : Type} [LinearOrder κ]

def get (k : κ) : OrderedMap κ α → Option α
  | [] => none
  | (k', v) :: m => if k' = k then some v else get k m

def set (k : κ) (v : α) : OrderedMap κ α → OrderedMap κ α
  | [] => [(k, v)]
  | (k', v') :: m =>
    if k < k' then (k, v) :: (k', v') :: m
    else if k' = k then (k, v) :: m
    else (k', v') :: set k v m

def restrict (keep : κ → Bool) (m : OrderedMap κ α) : OrderedMap κ α := m.filter fun p => keep p.1

def unset (k : κ) (m : OrderedMap κ α) : OrderedMap κ α := restrict (fun k' => k' ≠ k) m

def ofList (l : List (κ × α)) : OrderedMap κ α := l.foldl (fun m p => set p.1 p.2 m) []

def mapValues (f : α → β) (m : OrderedMap κ α) : OrderedMap κ β := m.map fun p => (p.1, f p.2)

def Ordered (m : OrderedMap κ α) : Prop := (m.map Prod.fst).Pairwise fun k k' => k < k'

variable {m : OrderedMap κ α}

theorem ordered_cons {k : κ} {v : α} :
    Ordered ((k, v) :: m) ↔ (∀ p ∈ m, k < p.1) ∧ Ordered m := by
  rw [Ordered, List.map_cons, List.pairwise_cons, Ordered]
  simp only [List.mem_map, forall_exists_index, and_imp, forall_apply_eq_imp_iff₂]

theorem get_eq_none {k : κ} : get k m = none ↔ ∀ p ∈ m, p.1 ≠ k := by
  induction m with
  | nil => simp [get]
  | cons p m ih =>
    obtain ⟨k', v⟩ := p
    rw [get]
    by_cases h : k' = k
    · simp [h]
    · simp [h, ih]

theorem mem_of_get {k : κ} {v : α} : ∀ {m : OrderedMap κ α}, get k m = some v → (k, v) ∈ m
  | (k', v') :: m, h => by
    rw [get] at h
    split at h
    next heq =>
      obtain rfl := Option.some.inj h
      exact heq ▸ List.mem_cons_self
    next => exact List.mem_cons_of_mem _ (mem_of_get h)

theorem get_set_self (k : κ) (v : α) : ∀ m : OrderedMap κ α, get k (set k v m) = some v
  | [] => if_pos rfl
  | (k', v') :: m => by
    rw [set]
    split
    next => exact if_pos rfl
    next =>
      split
      next => exact if_pos rfl
      next hne => rw [get, if_neg hne, get_set_self k v m]

theorem get_set_ne {k k' : κ} (h : k' ≠ k) (v : α) : ∀ m : OrderedMap κ α,
    get k' (set k v m) = get k' m
  | [] => if_neg (Ne.symm h)
  | (k'', v'') :: m => by
    rw [set]
    split
    next => exact if_neg (Ne.symm h)
    next =>
      split
      next heq =>
        subst heq
        rw [get, get, if_neg (Ne.symm h), if_neg (Ne.symm h)]
      next => rw [get, get, get_set_ne h v m]

theorem get_set (k k' : κ) (v : α) (m : OrderedMap κ α) [Decidable (k' = k)] :
    get k' (set k v m) = if k' = k then some v else get k' m := by
  split
  next h => exact h ▸ get_set_self k v m
  next h => exact get_set_ne h v m

theorem mem_set {k : κ} {v : α} {p : κ × α} : ∀ {m : OrderedMap κ α}, p ∈ set k v m →
    p = (k, v) ∨ p ∈ m
  | [], h => by simpa [set] using h
  | (k', v') :: m, h => by
    rw [set] at h
    split at h
    next => exact List.mem_cons.mp h
    next =>
      split at h
      next => exact (List.mem_cons.mp h).imp_right (List.mem_cons_of_mem _)
      next =>
        rcases List.mem_cons.mp h with rfl | hm
        · exact .inr List.mem_cons_self
        · exact (mem_set hm).imp_right (List.mem_cons_of_mem _)

theorem Ordered.set {k : κ} {v : α} : ∀ {m : OrderedMap κ α}, Ordered m → Ordered (set k v m)
  | [], _ => List.pairwise_singleton _ _
  | (k', v') :: m, h => by
    obtain ⟨hk', hm⟩ := ordered_cons.mp h
    rw [OrderedMap.set]
    split
    next hlt =>
      refine ordered_cons.mpr ⟨fun p hp => ?_, h⟩
      rcases List.mem_cons.mp hp with rfl | hp
      · exact hlt
      · exact lt_trans hlt (hk' p hp)
    next hnlt =>
      split
      next heq =>
        subst heq
        exact ordered_cons.mpr ⟨hk', hm⟩
      next hne =>
        refine ordered_cons.mpr ⟨fun p hp => ?_, hm.set⟩
        rcases mem_set hp with rfl | hp
        · exact lt_of_le_of_ne (not_lt.mp hnlt) hne
        · exact hk' p hp

theorem Ordered.restrict {keep : κ → Bool} (h : Ordered m) :
    Ordered (restrict keep m) :=
  h.sublist (List.filter_sublist.map _)

theorem get_restrict (keep : κ → Bool) (k : κ) : ∀ m : OrderedMap κ α,
    get k (restrict keep m) = if keep k then get k m else none
  | [] => by simp [OrderedMap.restrict, get]
  | (k', v) :: m => by
    have ih := get_restrict keep k m
    rw [OrderedMap.restrict] at ih
    rw [OrderedMap.restrict, List.filter_cons, get]
    by_cases h : k' = k
    · subst h
      cases hk : keep k' with
      | true => simp [get]
      | false => simp [ih, hk]
    · cases hk : keep k' with
      | true => simp [get, h, ih]
      | false => simp [h, ih]

/-- A map has one list. -/
theorem Ordered.ext : ∀ {m m' : OrderedMap κ α}, Ordered m → Ordered m' →
    (∀ k, get k m = get k m') → m = m'
  | [], [], _, _, _ => rfl
  | [], (k, v) :: m', _, _, h => by
    have hk := h k
    rw [get, get, if_pos rfl] at hk
    cases hk
  | (k, v) :: m, [], _, _, h => by
    have hk := h k
    rw [get, get, if_pos rfl] at hk
    cases hk
  | (k, v) :: m, (k', v') :: m', hm, hm', h => by
    obtain ⟨hlt, hm⟩ := ordered_cons.mp hm
    obtain ⟨hlt', hm₁'⟩ := ordered_cons.mp hm'
    -- the first key of one list is in the other, and none is before its first
    have hkk : k = k' := by
      have hk := h k
      have hk' := h k'
      rw [get, get, if_pos rfl] at hk
      rw [get, get, if_pos rfl] at hk'
      by_contra hne
      rw [if_neg (Ne.symm hne)] at hk
      rw [if_neg hne] at hk'
      exact lt_asymm (hlt' _ (mem_of_get hk.symm)) (hlt _ (mem_of_get hk'))
    subst hkk
    have hv := h k
    rw [get, get, if_pos rfl, if_pos rfl] at hv
    obtain rfl := Option.some.inj hv
    refine congrArg ((k, v) :: ·) (hm.ext hm₁' fun k'' => ?_)
    have hk'' := h k''
    rw [get, get] at hk''
    split at hk''
    next heq =>
      subst heq
      rw [get_eq_none.mpr fun p hp => ne_of_gt (hlt p hp),
        get_eq_none.mpr fun p hp => ne_of_gt (hlt' p hp)]
    next => exact hk''

theorem ordered_ofList (l : List (κ × α)) : Ordered (ofList l) := by
  have hfold : ∀ (l : List (κ × α)) (m : OrderedMap κ α), Ordered m →
      Ordered (l.foldl (fun m p => OrderedMap.set p.1 p.2 m) m) := by
    intro l
    induction l with
    | nil => exact fun m hm => hm
    | cons p l ih => exact fun m hm => ih _ hm.set
  exact hfold l [] List.Pairwise.nil

theorem set_last {k : κ} {v : α} : ∀ {m : OrderedMap κ α}, (∀ p ∈ m, p.1 < k) →
    set k v m = m ++ [(k, v)]
  | [], _ => rfl
  | (k', v') :: m, h => by
    have hlt : k' < k := h _ List.mem_cons_self
    rw [set, if_neg (not_lt_of_gt hlt), if_neg (ne_of_lt hlt),
      set_last fun p hp => h p (List.mem_cons_of_mem _ hp), List.cons_append]

/-- The list of a map is the one built from it. -/
theorem Ordered.ofList_eq (h : Ordered m) : ofList m = m := by
  -- what is assigned so far lies before what is still to come
  have hfold : ∀ (l acc : OrderedMap κ α), Ordered l → (∀ p ∈ acc, ∀ q ∈ l, p.1 < q.1) →
      l.foldl (fun m p => OrderedMap.set p.1 p.2 m) acc = acc ++ l := by
    intro l
    induction l with
    | nil => exact fun acc _ _ => (List.append_nil acc).symm
    | cons q l ih =>
      intro acc hl hacc
      obtain ⟨hq, hl⟩ := ordered_cons.mp hl
      rw [List.foldl_cons, set_last fun p hp => hacc p hp q List.mem_cons_self,
        ih _ hl fun p hp r hr => ?_, List.append_assoc, List.singleton_append]
      rcases List.mem_append.mp hp with hp | hp
      · exact hacc p hp r (List.mem_cons_of_mem _ hr)
      · obtain rfl := List.mem_singleton.mp hp
        exact hq r hr
  exact hfold m [] h fun p hp => absurd hp List.not_mem_nil

theorem mem_ofList {l : List (κ × α)} {p : κ × α} (h : p ∈ ofList l) : p ∈ l := by
  have hfold : ∀ (l : List (κ × α)) (m : OrderedMap κ α),
      p ∈ l.foldl (fun m p => OrderedMap.set p.1 p.2 m) m → p ∈ m ∨ p ∈ l := by
    intro l
    induction l with
    | nil => exact fun m hp => .inl hp
    | cons q l ih =>
      intro m hp
      rcases ih _ hp with hp | hp
      · exact (mem_set hp).elim (fun heq => .inr (heq ▸ List.mem_cons_self)) .inl
      · exact .inr (List.mem_cons_of_mem _ hp)
  exact (hfold l [] h).resolve_left List.not_mem_nil

/-! ## A function of the values -/

theorem get_mapValues (f : α → β) (k : κ) : ∀ m : OrderedMap κ α,
    get k (mapValues f m) = (get k m).map f
  | [] => rfl
  | (k', v) :: m => by
    have ih := get_mapValues f k m
    rw [mapValues] at ih
    rw [mapValues, List.map_cons, get, get, ih]
    split <;> rfl

theorem set_mapValues (f : α → β) (k : κ) (v : α) : ∀ m : OrderedMap κ α,
    set k (f v) (mapValues f m) = mapValues f (set k v m)
  | [] => rfl
  | (k', v') :: m => by
    have ih := set_mapValues f k v m
    rw [mapValues] at ih
    rw [mapValues, List.map_cons, set, set, ih]
    split
    next => rfl
    next => split <;> rfl

theorem ofList_mapValues (f : α → β) (l : List (κ × α)) :
    ofList (mapValues f l) = mapValues f (ofList l) := by
  have hfold : ∀ (l : List (κ × α)) (m : OrderedMap κ α),
      (mapValues f l).foldl (fun m p => OrderedMap.set p.1 p.2 m) (mapValues f m) =
        mapValues f (l.foldl (fun m p => OrderedMap.set p.1 p.2 m) m) := by
    intro l
    induction l with
    | nil => exact fun m => rfl
    | cons p l ih =>
      intro m
      have hcons : mapValues f (p :: l) = (p.1, f p.2) :: mapValues f l := rfl
      rw [hcons, List.foldl_cons, List.foldl_cons]
      dsimp only
      rw [set_mapValues]
      exact ih _
  exact hfold l []

theorem Ordered.mapValues {f : α → β} (h : Ordered m) :
    Ordered (mapValues f m) := by
  rw [Ordered, OrderedMap.mapValues, List.map_map]
  exact h

end

end OrderedMap

end FabricPeerExt.Lib
