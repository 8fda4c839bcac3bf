/-
FabricPeerExt.Common.ReferenceCounter — `pkg/common/reference`: the counter of a resource that is
closed when nobody uses it.

`Increment`, `Decrement` and `Close` look at one atomic and change the other in separate steps
(`Place`); the system is a pool of calls (`Lib/Calls.lean`).
-/
import FabricPeerExt.Lib.Calls

namespace FabricPeerExt.Reference

open Lib

/-! ## The counter -/

/-- The second atomic. -/
inductive Status where
  | ready
  | closePending
  | closed
  deriving DecidableEq, Repr

/-- Who has called `notifyClosed`. -/
inductive Caller where
  | decrement
  | close
  deriving DecidableEq, Repr

/-- The atomic steps of the three functions. -/
inductive Place where
  /-- `Increment` loads the status. -/
  | incrementLoad
  | incrementAdd
  /-- `Decrement` loads the count. -/
  | decrementLoad
  | decrementAdd
  /-- `Decrement` has made the count zero and loads the status. -/
  | decrementStatus
  | closeSwap
  /-- `Close` has marked the counter and loads the count. -/
  | closeLoad
  | notifySwap (caller : Caller)
  /-- `notifyClosed` invokes the close function. -/
  | notifyClose (caller : Caller)
  deriving DecidableEq, Repr

/-- What a call has returned. -/
inductive Return where
  | increment (r : Except String Int)
  | decrement (r : Except String Int)
  | close

/-- The counter, with the number of references held by users and the number of times the
close function has been invoked. -/
structure Counter where
  count : Int
  closed : Status
  held : Nat
  invoked : Nat

/-- `NewCounter`. -/
def Counter.new : Counter := { count := 0, closed := .ready, held := 0, invoked := 0 }

def addInt32 (n delta : Int) : Int := (n + delta).bmod (2 ^ 32)

/-- What the caller of `notifyClosed` returns. The count that a `Decrement` returns after
it is zero. -/
@[simp, grind =]
def Caller.done : Caller → Return
  | .decrement => .decrement (.ok 0)
  | .close => .close

/-- What `Counter.Increment`, `Decrement` and `Close` do at a place. -/
def next (s : Counter) : Place → Option (Counter × Next Place Return)
  | .incrementLoad =>
    if s.closed ≠ .ready then
      some (s, .ret (.increment (.error "attempt to increment count on closed resource")))
    else some (s, .goTo .incrementAdd)
  | .incrementAdd =>
    let count := addInt32 s.count 1
    some ({ s with count := count, held := s.held + 1 }, .ret (.increment (.ok count)))
  | .decrementLoad =>
    if s.count = 0 then
      some (s, .ret (.decrement
        (.error "attempt to decrement count when count is already 0")))
    else some (s, .goTo .decrementAdd)
  | .decrementAdd =>
    let newCount := addInt32 s.count (-1)
    if newCount = 0 then some ({ s with count := newCount }, .goTo .decrementStatus)
    else some ({ s with count := newCount }, .ret (.decrement (.ok newCount)))
  | .decrementStatus =>
    if s.closed = .closePending then some (s, .goTo (.notifySwap .decrement))
    else some (s, .ret (.decrement (.ok 0)))
  | .closeSwap =>
    if s.closed = .ready then some ({ s with closed := .closePending }, .goTo .closeLoad)
    else some (s, .ret .close)
  | .closeLoad =>
    if s.count = 0 then some (s, .goTo (.notifySwap .close)) else some (s, .ret .close)
  | .notifySwap caller =>
    if s.closed = .closePending then
      some ({ s with closed := .closed }, .goTo (.notifyClose caller))
    else some (s, .ret caller.done)
  | .notifyClose caller => some ({ s with invoked := s.invoked + 1 }, .ret caller.done)

abbrev System := Pool Counter Place Return

/-- What can happen next. A user calls `Decrement` for a reference they hold. -/
inductive Step where
  | increment
  | decrement
  | close
  | go (place : Place)
  deriving DecidableEq, Repr

def System.new : System := { shared := .new, calls := 0, returned := [] }

def step (p : System) : Step → System
  | .increment => p.start .incrementLoad
  | .decrement =>
    if p.shared.held = 0 then p
    else { p.start .decrementLoad with
           shared := { p.shared with held := p.shared.held - 1 } }
  | .close => p.start .closeSwap
  | .go place => p.go next place

/-! ## Closing safely -/

@[simp, grind =]
def Place.subtracts : Place → Nat
  | .decrementLoad | .decrementAdd => 1
  | _ => 0

/-- The references that have not been decremented: users hold them, or the subtraction is
still to come. -/
@[grind =]
def outstanding (p : System) : Nat := p.shared.held + p.total Place.subtracts

def Place.isIncrement : Place → Prop
  | .incrementLoad | .incrementAdd => True
  | _ => False

structure Safe (p : System) : Prop where
  once : p.shared.invoked ≤ 1
  nonneg : 0 ≤ p.shared.count
  /-- A `Close` has returned, the references are released, and no `Decrement` or `Close`
  is in progress. -/
  closes : .close ∈ p.returned → outstanding p = 0 → (∀ c ∈ p.calls, c.isIncrement) →
    p.shared.invoked = 1

/-- A step that invokes the close function does so when no reference is outstanding. -/
def ClosesFree (p : System) : Step → Prop
  | .go (.notifyClose caller) => .notifyClose caller ∈ p.calls → outstanding p = 0
  | _ => True

def ClosesSafely (p : System) (ops : List Step) : Prop :=
  Meets step ClosesFree p ops ∧
    ∀ done rest, ops = done ++ rest → Safe (run step p done)

/-- A call is on its way to close the resource and looks at the count no more. -/
def Closing (p : System) : Prop :=
  (∃ caller, .notifyClose caller ∈ p.calls) ∨
    p.shared.closed = .closePending ∧
      (.decrementStatus ∈ p.calls ∨ ∃ caller, .notifySwap caller ∈ p.calls)

/-- An `Increment` adds to the count when no call is about to close the resource, and the
count stays an int32; a `Close` marks an open counter that is in use when no `Decrement`
is between its subtraction and its look at the status. -/
def Careful (p : System) : Step → Prop
  | .go .incrementAdd => .incrementAdd ∈ p.calls → ¬ Closing p ∧ p.shared.count < 2 ^ 31 - 1
  | .go .closeSwap => .closeSwap ∈ p.calls → p.shared.closed = .ready →
      p.shared.count ≠ 0 → .decrementStatus ∉ p.calls
  | _ => True

theorem Caller.exists_iff {q : Caller → Prop} :
    (∃ caller, q caller) ↔ q .decrement ∨ q .close := by
  constructor
  · rintro ⟨caller, h⟩
    cases caller with
    | decrement => exact .inl h
    | close => exact .inr h
  · rintro (h | h)
    · exact ⟨.decrement, h⟩
    · exact ⟨.close, h⟩

instance (q : Caller → Prop) [DecidablePred q] : Decidable (∃ caller, q caller) :=
  decidable_of_iff _ Caller.exists_iff.symm

instance : DecidablePred Closing := fun _ => inferInstanceAs (Decidable (_ ∨ _))

instance (p : System) : DecidablePred (Careful p)
  | .go .incrementAdd => inferInstanceAs (Decidable (_ → _))
  | .go .closeSwap => inferInstanceAs (Decidable (_ → _ → _ → _))
  | .go .incrementLoad | .go .decrementLoad | .go .decrementAdd | .go .decrementStatus
  | .go .closeLoad | .go (.notifySwap _) | .go (.notifyClose _)
  | .increment | .decrement | .close => inferInstanceAs (Decidable True)

/-! ## What holds in careful runs -/

@[simp, grind =]
def Place.looks : Place → Nat
  | .decrementStatus => 1
  | _ => 0

@[simp, grind =]
def Place.loads : Place → Nat
  | .closeLoad => 1
  | _ => 0

@[simp, grind =]
def Place.notifies : Place → Nat
  | .notifySwap _ => 1
  | _ => 0

@[simp, grind =]
def Place.invokes : Place → Nat
  | .notifyClose _ => 1
  | _ => 0

theorem looks_pos {p : System} : 0 < p.total Place.looks ↔ .decrementStatus ∈ p.calls := by
  constructor
  · intro h
    obtain ⟨c, hc, hw⟩ := Pool.exists_of_total_pos h
    cases c with
    | decrementStatus => exact hc
    | _ => cases hw
  · exact Pool.le_total Place.looks

theorem notifies_pos {p : System} :
    0 < p.total Place.notifies ↔ ∃ caller, .notifySwap caller ∈ p.calls := by
  constructor
  · intro h
    obtain ⟨c, hc, hw⟩ := Pool.exists_of_total_pos h
    cases c with
    | notifySwap caller => exact ⟨caller, hc⟩
    | _ => cases hw
  · rintro ⟨caller, hc⟩
    exact Pool.le_total Place.notifies hc

theorem invokes_pos {p : System} :
    0 < p.total Place.invokes ↔ ∃ caller, .notifyClose caller ∈ p.calls := by
  constructor
  · intro h
    obtain ⟨c, hc, hw⟩ := Pool.exists_of_total_pos h
    cases c with
    | notifyClose caller => exact ⟨caller, hc⟩
    | _ => cases hw
  · rintro ⟨caller, hc⟩
    exact Pool.le_total Place.invokes hc

/-- The state of a counter in a careful run. The count is the number of references
outstanding, and zero while a call is closing the resource; a counter that is to be
closed is in use, or some call is going to see that it is not. -/
structure Inv (p : System) : Prop where
  count_eq : p.shared.count = outstanding p
  bound : p.shared.count ≤ 2 ^ 31 - 1
  ready : p.shared.closed = .ready →
    p.total Place.loads = 0 ∧ p.total Place.notifies = 0 ∧ .close ∉ p.returned
  pending : p.shared.closed = .closePending → p.shared.count ≠ 0 ∨
    0 < p.total Place.looks + p.total Place.loads + p.total Place.notifies
  quiet : p.shared.closed ≠ .closed → p.total Place.invokes = 0 ∧ p.shared.invoked = 0
  closed : p.shared.closed = .closed → p.total Place.invokes + p.shared.invoked = 1
  looking : p.shared.closed = .closePending → 0 < p.total Place.looks + p.total Place.notifies →
    p.shared.count = 0
  invoking : 0 < p.total Place.invokes → p.shared.count = 0

theorem closing_iff {p : System} : Closing p ↔ 0 < p.total Place.invokes ∨
    p.shared.closed = .closePending ∧ 0 < p.total Place.looks + p.total Place.notifies := by
  rw [Closing, ← invokes_pos, ← looks_pos, ← notifies_pos]
  refine or_congr_right (and_congr_right fun _ => ?_)
  omega

theorem inv_new : Inv System.new := by
  constructor <;> simp [System.new, Counter.new, outstanding, Pool.total]

theorem addInt32_eq {n delta : Int} (hlo : -2 ^ 31 ≤ n + delta)
    (hhi : n + delta ≤ 2 ^ 31 - 1) : addInt32 n delta = n + delta := by
  refine Int.bmod_eq_of_le ?_ ?_ <;> omega

structure Books (p q : System) (c : Place) (n : Next Place Return) : Prop where
  subtracts : c.subtracts + q.total Place.subtracts =
    n.weight Place.subtracts + p.total Place.subtracts
  looks : c.looks + q.total Place.looks = n.weight Place.looks + p.total Place.looks
  loads : c.loads + q.total Place.loads = n.weight Place.loads + p.total Place.loads
  notifies : c.notifies + q.total Place.notifies =
    n.weight Place.notifies + p.total Place.notifies
  invokes : c.invokes + q.total Place.invokes = n.weight Place.invokes + p.total Place.invokes
  returned : .close ∈ q.returned → .close ∈ p.returned ∨ n = .ret .close

theorem books {p : System} {c : Place} (hc : c ∈ p.calls) (s : Counter)
    (n : Next Place Return) : Books p (p.leave c s n) c n where
  subtracts := Pool.total_leave _ hc s n
  looks := Pool.total_leave _ hc s n
  loads := Pool.total_leave _ hc s n
  notifies := Pool.total_leave _ hc s n
  invokes := Pool.total_leave _ hc s n
  returned := by
    intro h
    cases n with
    | goTo c' => exact .inl h
    | ret r =>
      rcases List.mem_cons.mp h with rfl | h
      · exact .inr rfl
      · exact .inl h

section
variable {p q : System} {n : Next Place Return}

/-- A call that looks at the status, or swaps it for closed, leaves the count alone. Only one
call finds the counter marked and not closed. -/
theorem Inv.readsStatus (h : Inv p) {c : Place} (hb : Books p q c n)
    (hn : next p.shared c = some (q.shared, n))
    (hc : c = .incrementLoad ∨ c = .decrementLoad ∨ c = .decrementStatus ∨ c = .closeLoad ∨
      ∃ caller, c = .notifySwap caller) : Inv q := by
  obtain ⟨hcount, hbound, hready, hpending, hquiet, hclosed, hlooking, hinvoking⟩ := h
  obtain ⟨hsub, hlook, hload, hnot, hinv, hret⟩ := hb
  rcases hc with rfl | rfl | rfl | rfl | ⟨caller, rfl⟩
  all_goals
    simp only [next] at hn
    split at hn
    all_goals
      obtain ⟨hs, rfl⟩ := Prod.mk.inj (Option.some.inj hn)
      constructor <;> grind

/-- The count becomes positive: no call may be about to close. -/
theorem Inv.incrementAdd (h : Inv p) (hb : Books p q .incrementAdd n)
    (hn : next p.shared .incrementAdd = some (q.shared, n)) (hfree : ¬ Closing p)
    (hlt : p.shared.count < 2 ^ 31 - 1) : Inv q := by
  rw [closing_iff] at hfree
  obtain ⟨hcount, hbound, hready, hpending, hquiet, hclosed, hlooking, hinvoking⟩ := h
  obtain ⟨hsub, hlook, hload, hnot, hinv, hret⟩ := hb
  simp only [next] at hn
  rw [addInt32_eq (by omega) (by omega)] at hn
  obtain ⟨hs, rfl⟩ := Prod.mk.inj (Option.some.inj hn)
  constructor <;> grind

/-- The count is at least one, this call being among the outstanding. If it becomes zero, this
call goes on to look at the status. -/
theorem Inv.decrementAdd (h : Inv p) (hb : Books p q .decrementAdd n)
    (hn : next p.shared .decrementAdd = some (q.shared, n)) : Inv q := by
  obtain ⟨hcount, hbound, hready, hpending, hquiet, hclosed, hlooking, hinvoking⟩ := h
  obtain ⟨hsub, hlook, hload, hnot, hinv, hret⟩ := hb
  simp only [next] at hn
  simp only [Place.subtracts] at hsub
  rw [addInt32_eq (by grind) (by omega)] at hn
  split at hn
  all_goals
    obtain ⟨hs, rfl⟩ := Prod.mk.inj (Option.some.inj hn)
    constructor <;> grind

/-- The counter becomes one to be closed: a `Decrement` that is yet to look at the status
will close it. -/
theorem Inv.closeSwap (h : Inv p) (hb : Books p q .closeSwap n)
    (hn : next p.shared .closeSwap = some (q.shared, n))
    (hfree : p.shared.closed = .ready → p.shared.count ≠ 0 → .decrementStatus ∉ p.calls) :
    Inv q := by
  rw [← looks_pos] at hfree
  obtain ⟨hcount, hbound, hready, hpending, hquiet, hclosed, hlooking, hinvoking⟩ := h
  obtain ⟨hsub, hlook, hload, hnot, hinv, hret⟩ := hb
  simp only [next] at hn
  split at hn
  all_goals
    obtain ⟨hs, rfl⟩ := Prod.mk.inj (Option.some.inj hn)
    constructor <;> grind

theorem Inv.notifyClose {caller : Caller} (h : Inv p) (hb : Books p q (.notifyClose caller) n)
    (hn : next p.shared (.notifyClose caller) = some (q.shared, n)) : Inv q := by
  obtain ⟨hcount, hbound, hready, hpending, hquiet, hclosed, hlooking, hinvoking⟩ := h
  obtain ⟨hsub, hlook, hload, hnot, hinv, hret⟩ := hb
  simp only [next] at hn
  obtain ⟨hs, rfl⟩ := Prod.mk.inj (Option.some.inj hn)
  constructor <;> grind

end

theorem Inv.go {p : System} (h : Inv p) {c : Place} (hok : Careful p (.go c)) :
    Inv (p.go next c) := by
  obtain ⟨hgo, _⟩ | ⟨s, n, hc, hn, hgo⟩ := Pool.go_cases next p c
  · rw [hgo]
    exact h
  have hb := books hc s n
  rw [← Pool.shared_leave (p := p) (c := c) s n] at hn
  rw [hgo]
  cases c with
  | incrementLoad => exact h.readsStatus hb hn (.inl rfl)
  | incrementAdd => exact h.incrementAdd hb hn (hok hc).1 (hok hc).2
  | decrementLoad => exact h.readsStatus hb hn (.inr (.inl rfl))
  | decrementAdd => exact h.decrementAdd hb hn
  | decrementStatus => exact h.readsStatus hb hn (.inr (.inr (.inl rfl)))
  | closeSwap => exact h.closeSwap hb hn (hok hc)
  | closeLoad => exact h.readsStatus hb hn (.inr (.inr (.inr (.inl rfl))))
  | notifySwap caller =>
    exact h.readsStatus hb hn (.inr (.inr (.inr (.inr ⟨caller, rfl⟩))))
  | notifyClose caller => exact h.notifyClose hb hn

/-- A call that begins changes none of the numbers, except that the reference given to a
`Decrement` is no longer held by its user. -/
theorem Inv.start {p q : System} {c : Place} (h : Inv p)
    (hc : c = .incrementLoad ∨ c = .decrementLoad ∨ c = .closeSwap)
    (hq : q = { p.start c with
                shared := { p.shared with held := p.shared.held - c.subtracts } })
    (hheld : c.subtracts ≤ p.shared.held) : Inv q := by
  have htotal : ∀ w : Place → Nat, q.total w = w c + p.total w := by
    intro w
    rw [hq]
    exact Pool.total_start w p c
  have hsub := htotal Place.subtracts
  have hlook := htotal Place.looks
  have hload := htotal Place.loads
  have hnot := htotal Place.notifies
  have hinv := htotal Place.invokes
  have hs : q.shared = { p.shared with held := p.shared.held - c.subtracts } := by rw [hq]
  have hret : q.returned = p.returned := by rw [hq]; rfl
  obtain ⟨hcount, hbound, hready, hpending, hquiet, hclosed, hlooking, hinvoking⟩ := h
  rcases hc with rfl | rfl | rfl
  all_goals constructor <;> grind

theorem Inv.step {p : System} (h : Inv p) {st : Step} (hok : Careful p st) :
    Inv (step p st) := by
  cases st with
  | increment => exact h.start (.inl rfl) rfl (Nat.zero_le _)
  | decrement =>
    rw [Reference.step]
    split
    · exact h
    · next hheld => exact h.start (.inr (.inl rfl)) rfl (Nat.pos_of_ne_zero hheld)
  | close => exact h.start (.inr (.inr rfl)) rfl (Nat.zero_le _)
  | go c => exact h.go hok

theorem Inv.safe {p : System} (h : Inv p) : Safe p where
  once := by
    by_cases hc : p.shared.closed = .closed
    · have := h.closed hc
      omega
    · rw [(h.quiet hc).2]
      exact Nat.zero_le 1
  nonneg := by
    rw [h.count_eq]
    exact Int.natCast_nonneg _
  closes := by
    intro hret hout hcalls
    have hzero : ∀ w : Place → Nat, w .incrementLoad = 0 → w .incrementAdd = 0 →
        p.total w = 0 := by
      intro w hload hadd
      refine Pool.total_eq_zero fun c hc => ?_
      have hinc := hcalls c hc
      cases c with
      | incrementLoad => exact hload
      | incrementAdd => exact hadd
      | _ => cases hinc
    have hcount := h.count_eq
    have hpending := h.pending
    have hclosed := h.closed
    rw [hzero Place.looks rfl rfl, hzero Place.loads rfl rfl,
      hzero Place.notifies rfl rfl] at hpending
    rw [hzero Place.invokes rfl rfl] at hclosed
    cases hs : p.shared.closed with
    | ready => exact absurd hret (h.ready hs).2.2
    | closePending =>
      have := hpending hs
      omega
    | closed =>
      have := hclosed hs
      omega

theorem Inv.closesFree {p : System} (h : Inv p) (st : Step) : ClosesFree p st := by
  cases st with
  | go c =>
    cases c with
    | notifyClose caller =>
      intro hc
      have hzero := h.invoking (Pool.le_total Place.invokes hc)
      have hcount := h.count_eq
      omega
    | _ => trivial
  | _ => trivial

/-! ## What a careless step can lead to -/

theorem ClosesSafely.append {p : System} (ops : List Step) {rest : List Step}
    (h : ClosesSafely p (ops ++ rest)) : ClosesSafely (run step p ops) rest := by
  refine ⟨(Meets.append.mp h.1).2, fun done more heq => ?_⟩
  rw [← run_append]
  exact h.2 (ops ++ done) more (by rw [heq, List.append_assoc])

/-- The system can go on in a way that does not close safely. -/
def Breakable (p : System) : Prop := ∃ more, ¬ ClosesSafely p more

theorem Breakable.of_step {p : System} (st : Step) (h : Breakable (step p st)) :
    Breakable p := by
  obtain ⟨more, hmore⟩ := h
  exact ⟨st :: more, fun hsafe => hmore (ClosesSafely.append [st] hsafe)⟩

theorem breakable_of_invoke {p : System} {caller : Caller}
    (hc : .notifyClose caller ∈ p.calls) (hout : 0 < outstanding p) : Breakable p := by
  refine ⟨[.go (.notifyClose caller)], fun hsafe => ?_⟩
  have hzero : outstanding p = 0 := hsafe.1.1 hc
  omega

theorem breakable_of_swap {p : System} {caller : Caller} (hc : .notifySwap caller ∈ p.calls)
    (hpend : p.shared.closed = .closePending) (hout : 0 < outstanding p) : Breakable p := by
  refine Breakable.of_step (.go (.notifySwap caller)) ?_
  have hgo : step p (.go (.notifySwap caller)) =
      p.leave (.notifySwap caller) { p.shared with closed := .closed }
        (.goTo (.notifyClose caller)) :=
    Pool.go_of_mem hc (by rw [next, if_pos hpend])
  have hsub := (books hc { p.shared with closed := .closed }
    (.goTo (.notifyClose caller))).subtracts
  rw [hgo]
  refine breakable_of_invoke (Pool.mem_leave_goTo _ _) ?_
  simp only [outstanding, Pool.shared_leave] at hout ⊢
  grind

theorem breakable_of_look {p : System} (hc : .decrementStatus ∈ p.calls)
    (hpend : p.shared.closed = .closePending) (hout : 0 < outstanding p) : Breakable p := by
  refine Breakable.of_step (.go .decrementStatus) ?_
  have hgo : step p (.go .decrementStatus) =
      p.leave .decrementStatus p.shared (.goTo (.notifySwap .decrement)) :=
    Pool.go_of_mem hc (by rw [next, if_pos hpend])
  have hsub := (books hc p.shared (.goTo (.notifySwap .decrement))).subtracts
  rw [hgo]
  refine breakable_of_swap (Pool.mem_leave_goTo _ _) (by rw [Pool.shared_leave, hpend]) ?_
  simp only [outstanding, Pool.shared_leave] at hout ⊢
  grind

/-- An `Increment` that comes when a call is closing the resource, or that makes the count
negative. -/
theorem breakable_of_incrementAdd {p : System} (h : Inv p) (hc : .incrementAdd ∈ p.calls)
    (hcare : ¬ (¬ Closing p ∧ p.shared.count < 2 ^ 31 - 1)) :
    Breakable (step p (.go .incrementAdd)) := by
  have hgo : step p (.go .incrementAdd) = p.leave .incrementAdd
      { p.shared with count := addInt32 p.shared.count 1, held := p.shared.held + 1 }
      (.ret (.increment (.ok (addInt32 p.shared.count 1)))) := by
    rw [step]
    exact Pool.go_of_mem hc rfl
  have hmem : ∀ x ∈ p.calls, x ≠ .incrementAdd → x ∈ (step p (.go .incrementAdd)).calls := by
    intro x hx hne
    rw [hgo]
    exact Pool.mem_leave_of_ne hx hne _ _
  have hshared := congrArg Pool.shared hgo
  rw [Pool.shared_leave] at hshared
  generalize step p (.go .incrementAdd) = q at hmem hshared
  have hout : 0 < outstanding q := by
    rw [outstanding, hshared]
    exact Nat.add_pos_left (Nat.succ_pos p.shared.held) _
  by_cases hclosing : Closing p
  · rcases hclosing with ⟨caller, hinv⟩ | ⟨hpend, hlook | ⟨caller, hswap⟩⟩
    · exact breakable_of_invoke (hmem _ hinv (by simp)) hout
    · exact breakable_of_look (hmem _ hlook (by simp)) (by rw [hshared]; exact hpend) hout
    · exact breakable_of_swap (hmem _ hswap (by simp)) (by rw [hshared]; exact hpend) hout
  · refine ⟨[], fun hsafe => ?_⟩
    have hnonneg : 0 ≤ q.shared.count := (hsafe.2 [] [] rfl).nonneg
    have hmax : p.shared.count = 2 ^ 31 - 1 := by
      have := h.bound
      have : ¬ p.shared.count < 2 ^ 31 - 1 := fun hlt => hcare ⟨hclosing, hlt⟩
      omega
    have hneg : addInt32 (2 ^ 31 - 1) 1 < 0 := by decide
    rw [hshared, hmax] at hnonneg
    exact absurd hnonneg (not_le.mpr hneg)

/-- A `Close` that marks a counter in use while a `Decrement` is yet to look. -/
theorem breakable_of_closeSwap {p : System} (h : Inv p) (hc : .closeSwap ∈ p.calls)
    (hready : p.shared.closed = .ready) (hcount : p.shared.count ≠ 0)
    (hlook : .decrementStatus ∈ p.calls) : Breakable (step p (.go .closeSwap)) := by
  have hgo : step p (.go .closeSwap) =
      p.leave .closeSwap { p.shared with closed := .closePending } (.goTo .closeLoad) :=
    Pool.go_of_mem hc (by rw [next, if_pos hready])
  have hsub := (books hc { p.shared with closed := .closePending }
    (.goTo .closeLoad)).subtracts
  have heq := h.count_eq
  rw [hgo]
  refine breakable_of_look (Pool.mem_leave_of_ne hlook (by decide) _ _) rfl ?_
  rw [outstanding] at heq ⊢
  rw [Pool.shared_leave]
  grind

theorem breakable_of_careless {p : System} (h : Inv p) {st : Step} (hcare : ¬ Careful p st) :
    Breakable (step p st) := by
  cases st with
  | go c =>
    cases c with
    | incrementAdd =>
      obtain ⟨hc, hcare⟩ := Classical.not_imp.mp hcare
      exact breakable_of_incrementAdd h hc hcare
    | closeSwap =>
      obtain ⟨hc, hcare⟩ := Classical.not_imp.mp hcare
      obtain ⟨hready, hcare⟩ := Classical.not_imp.mp hcare
      obtain ⟨hcount, hlook⟩ := Classical.not_imp.mp hcare
      exact breakable_of_closeSwap h hc hready hcount (not_not.mp hlook)
    | _ => exact absurd trivial hcare
  | _ => exact absurd trivial hcare

/-! ## Careful runs -/

theorem inv_of_careful {ops : List Step} (h : Meets step Careful .new ops) :
    Inv (run step .new ops) :=
  run_invariant (fun _ _ hp hok => hp.step hok) inv_new h

/-- In a run of careful steps the counter closes safely: the close function is invoked at
most once and never while a reference is outstanding, the count is never negative, and
the function has been invoked when a `Close` has returned and the references are released.
After a step that is not careful the run can go on so that one of these fails. -/
theorem closesSafely_of_careful (ops : List Step) (h : Meets step Careful .new ops) :
    ClosesSafely .new ops ∧
      ∀ st, ¬ Careful (run step .new ops) st →
        ∃ more, ¬ ClosesSafely .new (ops ++ st :: more) := by
  refine ⟨⟨?_, ?_⟩, ?_⟩
  · refine meets_iff.mpr fun done i rest heq => ?_
    rw [heq] at h
    exact (inv_of_careful (Meets.append.mp h).1).closesFree i
  · intro done rest heq
    rw [heq] at h
    exact (inv_of_careful (Meets.append.mp h).1).safe
  · intro st hcare
    obtain ⟨more, hmore⟩ := breakable_of_careless (inv_of_careful h) hcare
    refine ⟨more, fun hsafe => hmore ?_⟩
    exact ClosesSafely.append [st] (ClosesSafely.append ops hsafe)

/-- A reference is taken, the counter closed, and the reference given back: the `Decrement`
closes the resource. -/
theorem closesSafely_lastDecrement :
    let ops : List Step := [.increment, .go .incrementLoad, .go .incrementAdd, .close,
      .go .closeSwap, .go .closeLoad, .decrement, .go .decrementLoad, .go .decrementAdd,
      .go .decrementStatus, .go (.notifySwap .decrement), .go (.notifyClose .decrement)]
    Meets step Careful .new ops ∧ (run step .new ops).shared.invoked = 1 ∧
      ClosesSafely .new ops :=
  ⟨by decide, by decide, (closesSafely_of_careful _ (by decide)).1⟩

/-- An `Increment` that has seen the open counter adds after a `Close` has seen the count
zero: the resource is closed under the reference. And a `Decrement` that has made the
count zero looks at the status only after another user has taken a reference and a third
has called `Close`. -/
theorem not_closesSafely_incrementDuringClose :
    ¬ ClosesSafely .new [.increment, .go .incrementLoad, .close, .go .closeSwap,
        .go .closeLoad, .go .incrementAdd, .go (.notifySwap .close),
        .go (.notifyClose .close)] ∧
      ¬ ClosesSafely .new [.increment, .go .incrementLoad, .go .incrementAdd, .decrement,
        .go .decrementLoad, .go .decrementAdd, .increment, .go .incrementLoad,
        .go .incrementAdd, .close, .go .closeSwap, .go .closeLoad, .go .decrementStatus,
        .go (.notifySwap .decrement), .go (.notifyClose .decrement)] := by
  constructor
  · intro h
    have hfree := meets_iff.mp h.1 [.increment, .go .incrementLoad, .close, .go .closeSwap,
      .go .closeLoad, .go .incrementAdd, .go (.notifySwap .close)] (.go (.notifyClose .close))
      [] rfl
    exact absurd (hfree (by decide)) (by decide)
  · intro h
    have hfree := meets_iff.mp h.1 [.increment, .go .incrementLoad, .go .incrementAdd,
      .decrement, .go .decrementLoad, .go .decrementAdd, .increment, .go .incrementLoad,
      .go .incrementAdd, .close, .go .closeSwap, .go .closeLoad, .go .decrementStatus,
      .go (.notifySwap .decrement)] (.go (.notifyClose .decrement)) [] rfl
    exact absurd (hfree (by decide)) (by decide)

end FabricPeerExt.Reference
