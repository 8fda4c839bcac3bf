/-
FabricPeerExt.Lib.Calls — calls that run side by side on one shared state.

A call is at a place `κ` of its code. `next : σ → κ → Option (σ × Next κ ρ)` is what it does
there, in one atomic step, with `none` for a call that has to wait. Calls at the same place are
not told apart: a `Pool` has a multiset of places.
-/
import Mathlib.Algebra.Order.BigOperators.Group.Multiset
import Mathlib.Algebra.Order.Ring.Nat
import FabricPeerExt.Lib.Run

namespace FabricPeerExt.Lib

/-- Where a call goes on, or what it returns. -/
inductive Next (κ ρ : Type) where
  | goTo (c : κ)
  | ret (r : ρ)

@[simp, grind =]
def Next.weight {κ ρ : Type} (w : κ → Nat) : Next κ ρ → Nat
  | .goTo c => w c
  | .ret _ => 0

/-- A shared state, the places of the calls in progress, and the results of the finished
calls, the last one first. -/
structure Pool (σ κ ρ : Type) where
  shared : σ
  calls : Multiset κ
  returned : List ρ

namespace Pool

variable {σ κ ρ : Type}

def start (p : Pool σ κ ρ) (c : κ) : Pool σ κ ρ := { p with calls := c ::ₘ p.calls }

def total (w : κ → Nat) (p : Pool σ κ ρ) : Nat := (p.calls.map w).sum

@[simp] theorem total_start (w : κ → Nat) (p : Pool σ κ ρ) (c : κ) :
    (p.start c).total w = w c + p.total w := by
  simp [total, start]

theorem le_total (w : κ → Nat) {p : Pool σ κ ρ} {c : κ} (h : c ∈ p.calls) :
    w c ≤ p.total w :=
  Multiset.le_sum_of_mem (Multiset.mem_map_of_mem w h)

theorem total_eq_zero {w : κ → Nat} {p : Pool σ κ ρ} (h : ∀ c ∈ p.calls, w c = 0) :
    p.total w = 0 := by
  refine Multiset.sum_eq_zero_iff.mpr fun n hn => ?_
  obtain ⟨c, hc, rfl⟩ := Multiset.mem_map.mp hn
  exact h c hc

/-- Where a weight is found, some call has it. -/
theorem exists_of_total_pos {w : κ → Nat} {p : Pool σ κ ρ} (h : 0 < p.total w) :
    ∃ c ∈ p.calls, 0 < w c := by
  by_contra hno
  have hzero : p.total w = 0 := total_eq_zero fun c hc => by
    by_contra hw
    exact hno ⟨c, hc, Nat.pos_of_ne_zero hw⟩
  omega

variable [DecidableEq κ]

def leave (p : Pool σ κ ρ) (c : κ) (s : σ) : Next κ ρ → Pool σ κ ρ
  | .goTo c' => { p with shared := s, calls := c' ::ₘ p.calls.erase c }
  | .ret r => { shared := s, calls := p.calls.erase c, returned := r :: p.returned }

def go (next : σ → κ → Option (σ × Next κ ρ)) (p : Pool σ κ ρ) (c : κ) : Pool σ κ ρ :=
  if c ∈ p.calls then
    match next p.shared c with
    | none => p
    | some (s, n) => p.leave c s n
  else p

variable {next : σ → κ → Option (σ × Next κ ρ)} {p : Pool σ κ ρ} {c : κ}

@[simp] theorem shared_leave (s : σ) (n : Next κ ρ) : (p.leave c s n).shared = s := by
  cases n <;> rfl

theorem mem_leave_goTo (s : σ) (c' : κ) : c' ∈ (p.leave c s (.goTo c')).calls :=
  Multiset.mem_cons_self c' _

theorem mem_of_mem_leave {x : κ} {s : σ} {n : Next κ ρ} (h : x ∈ (p.leave c s n).calls) :
    n = .goTo x ∨ x ∈ p.calls := by
  cases n with
  | goTo c' =>
    rcases Multiset.mem_cons.mp h with rfl | h
    · exact .inl rfl
    · exact .inr (Multiset.mem_of_mem_erase h)
  | ret r => exact .inr (Multiset.mem_of_mem_erase h)

/-- The calls elsewhere are where they were. -/
theorem mem_leave_of_ne {x : κ} (hx : x ∈ p.calls) (hne : x ≠ c) (s : σ) (n : Next κ ρ) :
    x ∈ (p.leave c s n).calls := by
  have herase : x ∈ p.calls.erase c := (Multiset.mem_erase_of_ne hne).mpr hx
  cases n with
  | goTo c' => exact Multiset.mem_cons_of_mem herase
  | ret r => exact herase

/-- The books after a step: the weight of the new place comes in, that of the old one
goes. -/
theorem total_leave (w : κ → Nat) (h : c ∈ p.calls) (s : σ) (n : Next κ ρ) :
    w c + (p.leave c s n).total w = n.weight w + p.total w := by
  have he : w c + ((p.calls.erase c).map w).sum = p.total w := by
    rw [← Multiset.sum_cons, ← Multiset.map_cons, Multiset.cons_erase h]
    rfl
  cases n with
  | goTo c' =>
    have hl : (p.leave c s (.goTo c')).total w = w c' + ((p.calls.erase c).map w).sum := by
      simp [total, leave]
    rw [hl, Next.weight]
    omega
  | ret r =>
    rw [Next.weight, Nat.zero_add]
    exact he

/-- What a step of a call can do. -/
theorem go_cases (next : σ → κ → Option (σ × Next κ ρ)) (p : Pool σ κ ρ) (c : κ) :
    (go next p c = p ∧ (c ∈ p.calls → next p.shared c = none)) ∨
      ∃ s n, c ∈ p.calls ∧ next p.shared c = some (s, n) ∧ go next p c = p.leave c s n := by
  unfold go
  by_cases hc : c ∈ p.calls
  · rw [if_pos hc]
    cases hn : next p.shared c with
    | none => exact .inl ⟨rfl, fun _ => rfl⟩
    | some r => exact .inr ⟨r.1, r.2, hc, rfl, rfl⟩
  · rw [if_neg hc]
    exact .inl ⟨rfl, fun h => absurd h hc⟩

theorem go_of_mem {s : σ} {n : Next κ ρ} (hc : c ∈ p.calls)
    (hn : next p.shared c = some (s, n)) : go next p c = p.leave c s n := by
  unfold go
  rw [if_pos hc, hn]

/-- The only call takes a step. -/
theorem go_single (next : σ → κ → Option (σ × Next κ ρ)) (s : σ) (c : κ) (rs : List ρ) :
    go next ⟨s, {c}, rs⟩ c = match next s c with
      | none => ⟨s, {c}, rs⟩
      | some (s', .goTo c') => ⟨s', {c'}, rs⟩
      | some (s', .ret r) => ⟨s', 0, r :: rs⟩ := by
  rw [go, if_pos (Multiset.mem_singleton_self c)]
  cases next s c with
  | none => rfl
  | some r =>
    obtain ⟨s', n⟩ := r
    cases n with
    | goTo c' => simp [leave]
    | ret r => simp [leave]

end Pool

end FabricPeerExt.Lib
