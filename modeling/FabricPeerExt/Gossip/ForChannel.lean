/-
FabricPeerExt.Gossip.ForChannel — the request managers of the channels, `Get` of
`pkg/common/requestmgr/requestmgr.go`.

`forChannel` looks under the read lock and makes the manager under the write lock, without a
second look: two first callers make two managers (`oneManager_iff`).
-/
import FabricPeerExt.Gossip.RequestMgr
import FabricPeerExt.Lib.Calls

namespace FabricPeerExt.Gossip.ForChannel

open Lib
open PvtData (GoString)

/-- `requestMgr`. -/
structure RequestMgr where
  mgrs : GoMap GoString Nat
  made : List ChannelMgr

/-- `newRequestMgr`. -/
def newRequestMgr : RequestMgr := ⟨∅, []⟩

/-- The critical sections of `forChannel`. -/
inductive Place where
  | lookup (channelID : GoString)
  | create (channelID : GoString)
  deriving DecidableEq

/-- A finished call: the channel, and the manager it has got. -/
structure Return where
  channelID : GoString
  mgr : Nat
  deriving DecidableEq

/-- `requestMgr.forChannel`. -/
def forChannel (m : RequestMgr) : Place → Option (RequestMgr × Next Place Return)
  | .lookup channelID =>
    match m.mgrs.lookup channelID with
    | some cm => some (m, .ret ⟨channelID, cm⟩)
    | none => some (m, .goTo (.create channelID))
  | .create channelID =>
    let cm := m.made.length
    some (⟨m.mgrs.insert channelID cm, m.made ++ [newChannelMgr]⟩, .ret ⟨channelID, cm⟩)

abbrev System := Pool RequestMgr Place Return

def System.new : System := { shared := newRequestMgr, calls := 0, returned := [] }

inductive Step where
  | get (channelID : GoString)
  | go (place : Place)
  /-- Someone does a step with a manager that some call has returned. -/
  | use (r : Return) (st : Gossip.Step)

def RequestMgr.use (m : RequestMgr) (cm : Nat) (st : Gossip.Step) : RequestMgr :=
  { m with made := m.made.modify cm fun c => st.step c }

def step (p : System) : Step → System
  | .get channelID => p.start (.lookup channelID)
  | .go place => p.go forChannel place
  | .use r st => if r ∈ p.returned then { p with shared := p.shared.use r.mgr st } else p

/-- A response handed to the manager `b` reaches a request that the manager `a` knows. -/
def Reaches (m : RequestMgr) (a b : Nat) : Prop :=
  ∀ c reqID i r d, m.made[a]? = some c → c.lookup reqID = some (i, r) →
    ∃ c', ((m.made.modify b fun c => c.respond reqID d)[a]?) = some c' ∧
      c'.lookup reqID = some (i, r.respond d)

/-- All calls for a channel have returned the same manager, and responses handed to what
one has got reach the requests of the others. -/
def OneManager (p : System) : Prop :=
  ∀ channelID a b, ⟨channelID, a⟩ ∈ p.returned → ⟨channelID, b⟩ ∈ p.returned →
    a = b ∧ Reaches p.shared a b

/-- A manager is made for a channel that has none. -/
def Careful (p : System) : Step → Prop
  | .go (.create channelID) =>
    .create channelID ∈ p.calls → p.shared.mgrs.lookup channelID = none
  | _ => True

/-! ## Responses -/

theorem lookup_respond {c : ChannelMgr} {reqID : UInt64} {i : Nat} {r : Request}
    (h : c.lookup reqID = some (i, r)) (d : Delivery) :
    (c.respond reqID d).lookup reqID = some (i, r.respond d) := by
  have hr : c.respond reqID d = c.update i (r.respond d) := by
    rw [ChannelMgr.respond, h]
  obtain ⟨j, hj, hmap⟩ := Option.bind_eq_some_iff.mp h
  obtain ⟨r', hget, heq⟩ := Option.map_eq_some_iff.mp hmap
  obtain ⟨rfl, rfl⟩ := Prod.mk.inj heq
  obtain ⟨hlt, _⟩ := List.getElem?_eq_some_iff.mp hget
  rw [hr, ChannelMgr.lookup, ChannelMgr.update]
  simp only [hj, Option.bind_some]
  rw [List.getElem?_set_self hlt]
  rfl

theorem reaches_self (m : RequestMgr) (a : Nat) : Reaches m a a := by
  intro c reqID i r d hc hl
  refine ⟨c.respond reqID d, ?_, lookup_respond hl d⟩
  rw [List.getElem?_modify_eq, hc]
  rfl

/-! ## Every run -/

variable {p : System}

theorem mem_returned_step {r : Return} (h : r ∈ p.returned) (st : Step) :
    r ∈ (step p st).returned := by
  cases st with
  | get channelID => exact h
  | go place =>
    rw [step]
    obtain ⟨hgo, _⟩ | ⟨s, n, _, _, hgo⟩ := Pool.go_cases forChannel p place
    · rw [hgo]
      exact h
    · rw [hgo]
      cases n with
      | goTo c => exact h
      | ret r' => exact List.mem_cons_of_mem r' h
  | use r' st =>
    rw [step]
    split <;> exact h

/-- The manager of a channel has been returned by the call that made it, and what has been
returned has been made. -/
structure Inv (p : System) : Prop where
  known : ∀ channelID cm, p.shared.mgrs.lookup channelID = some cm →
    ⟨channelID, cm⟩ ∈ p.returned
  made : ∀ r ∈ p.returned, r.mgr < p.shared.made.length

theorem inv_new : Inv System.new where
  known := by
    intro channelID cm h
    simp [System.new, newRequestMgr] at h
  made := by
    intro r hr
    cases hr

/-- What the write-locked section does. -/
theorem step_create {channelID : GoString} (hc : .create channelID ∈ p.calls) :
    step p (.go (.create channelID)) =
      { shared := ⟨p.shared.mgrs.insert channelID p.shared.made.length,
          p.shared.made ++ [newChannelMgr]⟩
        calls := p.calls.erase (.create channelID)
        returned := ⟨channelID, p.shared.made.length⟩ :: p.returned } := by
  rw [step, Pool.go_of_mem hc rfl]
  rfl

/-- A step either makes a manager, or returns the one that the channel has, or leaves the
managers and what has been returned. -/
theorem step_cases (p : System) (st : Step) :
    (∃ channelID, st = .go (.create channelID) ∧ .create channelID ∈ p.calls) ∨
      (step p st).shared.mgrs = p.shared.mgrs ∧
      (step p st).shared.made.length = p.shared.made.length ∧
      ∀ r ∈ (step p st).returned,
        r ∈ p.returned ∨ p.shared.mgrs.lookup r.channelID = some r.mgr := by
  cases st with
  | get channelID => exact .inr ⟨rfl, rfl, fun r hr => .inl hr⟩
  | go place =>
    obtain ⟨hgo, _⟩ | ⟨s, n, hc, hn, hgo⟩ := Pool.go_cases forChannel p place
    · rw [step, hgo]
      exact .inr ⟨rfl, rfl, fun r hr => .inl hr⟩
    cases place with
    | create channelID => exact .inl ⟨channelID, rfl, hc⟩
    | lookup channelID =>
      refine .inr ?_
      rw [step, hgo, Pool.shared_leave]
      cases hl : p.shared.mgrs.lookup channelID with
      | none =>
        simp only [forChannel, hl, Option.some.injEq, Prod.mk.injEq] at hn
        obtain ⟨rfl, rfl⟩ := hn
        exact ⟨rfl, rfl, fun r hr => .inl hr⟩
      | some cm =>
        simp only [forChannel, hl, Option.some.injEq, Prod.mk.injEq] at hn
        obtain ⟨rfl, rfl⟩ := hn
        refine ⟨rfl, rfl, fun r hr => ?_⟩
        rcases List.mem_cons.mp hr with rfl | hr
        · exact .inr hl
        · exact .inl hr
  | use r st =>
    rw [step]
    split
    · exact .inr ⟨rfl, List.length_modify _ _ _, fun r hr => .inl hr⟩
    · exact .inr ⟨rfl, rfl, fun r hr => .inl hr⟩

theorem Inv.step (h : Inv p) (st : Step) : Inv (step p st) := by
  obtain ⟨channelID, rfl, hc⟩ | ⟨hmgrs, hlen, hret⟩ := step_cases p st
  · rw [step_create hc]
    constructor
    · intro ch cm hl
      by_cases hch : ch = channelID
      · subst hch
        rw [AList.lookup_insert] at hl
        cases hl
        exact List.mem_cons_self
      · rw [AList.lookup_insert_ne hch] at hl
        exact List.mem_cons_of_mem _ (h.known ch cm hl)
    · intro r hr
      rw [List.length_append]
      rcases List.mem_cons.mp hr with rfl | hr
      · exact Nat.lt_succ_self _
      · exact Nat.lt_succ_of_lt (h.made r hr)
  · constructor
    · intro ch cm hl
      rw [hmgrs] at hl
      exact mem_returned_step (h.known ch cm hl) st
    · intro r hr
      rw [hlen]
      rcases hret r hr with hr | hl
      · exact h.made r hr
      · exact h.made r (h.known _ _ hl)

theorem inv_run (ops : List Step) : Inv (run step .new ops) :=
  run_always (fun _ st h => h.step st) inv_new

/-! ## One manager for a channel -/

/-- What has been returned for a channel is the manager it has. -/
def Agreed (p : System) : Prop :=
  ∀ r ∈ p.returned, p.shared.mgrs.lookup r.channelID = some r.mgr

theorem Agreed.step (h : Agreed p) {st : Step} (hok : Careful p st) :
    Agreed (step p st) := by
  obtain ⟨channelID, rfl, hc⟩ | ⟨hmgrs, _, hret⟩ := step_cases p st
  · rw [step_create hc]
    intro r hr
    rcases List.mem_cons.mp hr with rfl | hr
    · exact AList.lookup_insert _
    · have hne : r.channelID ≠ channelID := by
        intro heq
        have hnone := hok hc
        rw [← heq, h r hr] at hnone
        cases hnone
      exact (AList.lookup_insert_ne hne).trans (h r hr)
  · intro r hr
    rw [hmgrs]
    rcases hret r hr with hr | hl
    · exact h r hr
    · exact hl

theorem Agreed.oneManager (h : Agreed p) : OneManager p := by
  intro channelID a b ha hb
  have hab : a = b := Option.some.inj ((h _ ha).symm.trans (h _ hb))
  subst hab
  exact ⟨rfl, reaches_self p.shared a⟩

/-- A manager made for a channel that has one: the calls that made the two have returned
different managers. -/
theorem not_oneManager_of_careless (h : Inv p) {st : Step}
    (hcare : ¬ Careful p st) (ops : List Step) : ¬ OneManager (run step (step p st) ops) := by
  cases st with
  | get channelID => exact absurd trivial hcare
  | use r st => exact absurd trivial hcare
  | go place =>
    cases place with
    | lookup channelID => exact absurd trivial hcare
    | create channelID =>
      obtain ⟨hc, hsome⟩ := Classical.not_imp.mp hcare
      obtain ⟨cm, hcm⟩ := Option.ne_none_iff_exists'.mp hsome
      have hold : ⟨channelID, cm⟩ ∈ p.returned := h.known channelID cm hcm
      have hlt : cm < p.shared.made.length := h.made _ hold
      have hkeep : ∀ r ∈ (step p (.go (.create channelID))).returned,
          r ∈ (run step (step p (.go (.create channelID))) ops).returned := fun r hr =>
        run_always (P := fun q : System => r ∈ q.returned) (fun _ st h => mem_returned_step h st) hr
      have hnew : ⟨channelID, p.shared.made.length⟩ ∈
          (step p (.go (.create channelID))).returned := by
        rw [step_create hc]
        exact List.mem_cons_self
      intro hone
      have heq := (hone channelID cm p.shared.made.length
        (hkeep _ (mem_returned_step hold _)) (hkeep _ hnew)).1
      omega

/-- At the end of a run all calls for a channel have returned the same manager, and
responses handed to what one has got reach the requests of the others, exactly if each
manager was made for a channel that had none. -/
theorem oneManager_iff (ops : List Step) :
    OneManager (run step .new ops) ↔ Meets step Careful .new ops := by
  constructor
  · intro hone
    refine meets_iff.mpr fun done st rest heq => ?_
    by_contra hcare
    rw [heq, run_append] at hone
    exact not_oneManager_of_careless (inv_run done) hcare rest hone
  · intro h
    have hnew : Agreed System.new := by
      intro r hr
      cases hr
    exact (run_invariant (P := Agreed) (fun _ _ hp hok => hp.step hok) hnew h).oneManager

/-- Two first calls for a channel, both of which look before one makes the manager. -/
theorem not_oneManager_firstCallers :
    let ch : GoString := [109]
    ¬ OneManager (run step .new [.get ch, .get ch, .go (.lookup ch), .go (.lookup ch),
      .go (.create ch), .go (.create ch)]) := by
  intro ch hone
  have heq := (hone ch 0 1 (by decide) (by decide)).1
  cases heq

end FabricPeerExt.Gossip.ForChannel
