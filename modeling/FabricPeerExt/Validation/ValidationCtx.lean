/-
FabricPeerExt.Validation.ValidationCtx — the contexts of the validations in progress on one
channel, `pkg/validation/validationctx/validationctx.go`.
-/
import Mathlib.Data.List.Infix
import Mathlib.Data.List.Range
import FabricPeerExt.Lib.Run

namespace FabricPeerExt.Validation.ValidationCtx

open Lib

/-- `blockContext`; a context is known by the number of those created before it. -/
structure BlockContext where
  blockNum : UInt64
  ctx : Nat

/-- `channelContext`, with how many contexts were created and which of them are cancelled. -/
structure ChannelContext where
  cancelByBlock : List BlockContext
  created : Nat
  cancelled : List Nat

namespace ChannelContext

def new : ChannelContext := ⟨[], 0, []⟩

def add (c : ChannelContext) (blockNum : UInt64) : ChannelContext :=
  { c with cancelByBlock := c.cancelByBlock ++ [⟨blockNum, c.created⟩], created := c.created + 1 }

/-- `channelContext.create`. -/
def create (c : ChannelContext) (blockNum : UInt64) : ChannelContext × Except String Nat :=
  match c.cancelByBlock.getLast? with
  | none => (c.add blockNum, .ok c.created)
  | some ctx =>
    if ctx.blockNum ≥ blockNum then
      (c, .error (s!"unable to create context for block {blockNum} since it is less than " ++
        s!"or equal to the current block {ctx.blockNum}"))
    else (c.add blockNum, .ok c.created)

/-- `cancel`: the loop ends at the first greater block. -/
def cancel (c : ChannelContext) (blockNum : UInt64) : ChannelContext :=
  let upTo := c.cancelByBlock.takeWhile fun ctx => !decide (blockNum < ctx.blockNum)
  { c with
    cancelByBlock := c.cancelByBlock.drop upTo.length
    cancelled := c.cancelled ++ upTo.map BlockContext.ctx }

/-- The calls that change the list. -/
inductive Op where
  | create (blockNum : UInt64)
  | cancel (blockNum : UInt64)

def step (c : ChannelContext) : Op → ChannelContext
  | .create blockNum => (c.create blockNum).1
  | .cancel blockNum => c.cancel blockNum

/-- The outstanding contexts are for increasing blocks, and contexts are cancelled in the order
of their creation. -/
structure Ordered (c : ChannelContext) : Prop where
  increasing : c.cancelByBlock.Pairwise fun a b => a.blockNum < b.blockNum
  all : c.cancelled ++ c.cancelByBlock.map BlockContext.ctx = List.range c.created

/-- In an increasing list the blocks up to the first greater one are those that are not
greater. -/
theorem takeWhile_eq_filter {l : List BlockContext} (n : UInt64)
    (h : l.Pairwise fun a b => a.blockNum < b.blockNum) :
    l.takeWhile (fun ctx => !decide (n < ctx.blockNum)) = l.filter (fun ctx => ctx.blockNum ≤ n) ∧
      l.drop (l.takeWhile fun ctx => !decide (n < ctx.blockNum)).length =
        l.filter fun ctx => n < ctx.blockNum := by
  induction l with
  | nil => exact ⟨rfl, rfl⟩
  | cons a l ih =>
    obtain ⟨ha, hl⟩ := List.pairwise_cons.mp h
    by_cases hn : n < a.blockNum
    · have hlt : ∀ b ∈ l, n < b.blockNum := fun b hb => UInt64.lt_trans hn (ha b hb)
      have hnone : l.filter (fun ctx => ctx.blockNum ≤ n) = [] := by
        simpa [List.filter_eq_nil_iff] using hlt
      have hall : l.filter (fun ctx => n < ctx.blockNum) = l := by
        simpa [List.filter_eq_self] using hlt
      simp [hn, hnone, hall, UInt64.not_le.mpr hn]
    · simp [hn, UInt64.not_lt.mp hn, (ih hl).1, ← (ih hl).2]

section
variable {c : ChannelContext} (h : Ordered c)
include h

/-- What `cancel` does: exactly the blocks that are not greater are cancelled. -/
theorem Ordered.cancel_eq (n : UInt64) : c.cancel n =
    ⟨c.cancelByBlock.filter fun ctx => n < ctx.blockNum, c.created, c.cancelled ++
      (c.cancelByBlock.filter fun ctx => ctx.blockNum ≤ n).map BlockContext.ctx⟩ := by
  obtain ⟨htake, hdrop⟩ := takeWhile_eq_filter n h.increasing
  rw [ChannelContext.cancel, ← htake, ← hdrop]

theorem Ordered.le_last {last : BlockContext} (hlast : c.cancelByBlock.getLast? = some last) :
    ∀ ctx ∈ c.cancelByBlock, ctx.blockNum ≤ last.blockNum := by
  intro ctx hmem
  obtain ⟨init, hinit⟩ := List.getLast?_eq_some_iff.mp hlast
  have hinc := h.increasing
  rw [hinit] at hmem hinc
  rcases List.mem_append.mp hmem with hmem | hmem
  · exact UInt64.le_of_lt ((List.pairwise_append.mp hinc).2.2 ctx hmem last (by simp))
  · rw [List.mem_singleton.mp hmem]
    exact UInt64.le_refl _

/-- What `create` does: it compares with the last block, which is the greatest. -/
theorem Ordered.create_eq (n : UInt64) : ∃ e, c.create n =
    if ∀ ctx ∈ c.cancelByBlock, ctx.blockNum < n then (c.add n, .ok c.created)
    else (c, .error e) := by
  rw [create]
  cases hlast : c.cancelByBlock.getLast? with
  | none => simp [List.getLast?_eq_none_iff.mp hlast]
  | some last =>
    have hiff : (∀ ctx ∈ c.cancelByBlock, ctx.blockNum < n) ↔ ¬ last.blockNum ≥ n := by
      constructor
      · exact fun hlt => UInt64.not_le.mpr (hlt last (List.mem_of_getLast? hlast))
      · intro hlt ctx hmem
        exact UInt64.lt_of_le_of_lt (h.le_last hlast ctx hmem) (UInt64.not_le.mp hlt)
    simp only [hiff, ite_not]
    exact ⟨_, rfl⟩

theorem Ordered.step (op : Op) : Ordered (c.step op) := by
  cases op with
  | create n =>
    obtain ⟨e, heq⟩ := h.create_eq n
    rw [ChannelContext.step, heq]
    split
    next hlt =>
      constructor
      · refine List.pairwise_append.mpr ⟨h.increasing, List.pairwise_singleton _ _, ?_⟩
        simpa using hlt
      · rw [add, List.map_append, ← List.append_assoc, h.all, List.range_succ]
        rfl
    next => exact h
  | cancel n =>
    constructor
    · exact h.increasing.sublist (List.drop_sublist _ _)
    · rw [ChannelContext.step, ChannelContext.cancel, List.append_assoc, ← List.map_append,
        ← List.prefix_append_drop (List.takeWhile_prefix _), h.all]

theorem Ordered.not_cancelled {ctx : BlockContext} (hmem : ctx ∈ c.cancelByBlock) :
    ctx.ctx ∉ c.cancelled := by
  have hnodup := List.nodup_range (n := c.created)
  rw [← h.all] at hnodup
  exact fun hc => (List.nodup_append.mp hnodup).2.2 _ hc _ (List.mem_map_of_mem hmem) rfl

end

/-- `create` keeps what is cancelled and what is outstanding. -/
theorem create_frame (c : ChannelContext) (n : UInt64) : (c.create n).1.cancelled = c.cancelled ∧
    c.cancelByBlock ⊆ (c.create n).1.cancelByBlock := by
  unfold create
  split
  next => simp [add]
  next => split <;> simp [add]

theorem mem_cancelled_step {i : Nat} (c : ChannelContext) (op : Op) (h : i ∈ c.cancelled) :
    i ∈ (c.step op).cancelled := by
  cases op with
  | create n => exact (create_frame c n).1 ▸ h
  | cancel n => exact List.mem_append_left _ h

/-- An outstanding context is cancelled by the first cancel for its block or a greater one, and
stays so. -/
theorem cancelled_run_iff {c : ChannelContext} (h : Ordered c) {ctx : BlockContext}
    (hmem : ctx ∈ c.cancelByBlock) (ops : List Op) :
    ctx.ctx ∈ (run step c ops).cancelled ↔ ∃ m, .cancel m ∈ ops ∧ ctx.blockNum ≤ m := by
  induction ops generalizing c with
  | nil => exact iff_of_false (h.not_cancelled hmem) (by simp)
  | cons op ops ih =>
    rw [run_cons]
    cases op with
    | create n =>
      rw [ih (h.step (.create n)) ((create_frame c n).2 hmem)]
      simp
    | cancel n =>
      by_cases hn : n < ctx.blockNum
      · have hout : ctx ∈ (c.cancel n).cancelByBlock := by
          rw [h.cancel_eq]
          exact List.mem_filter.mpr ⟨hmem, decide_eq_true hn⟩
        rw [ih (h.step (.cancel n)) hout]
        simp [UInt64.not_le.mpr hn, or_and_right, exists_or]
      · have hle := UInt64.not_lt.mp hn
        refine iff_of_true (run_always mem_cancelled_step ?_) ⟨n, by simp, hle⟩
        rw [step, h.cancel_eq]
        refine List.mem_append_right _ (List.mem_map_of_mem ?_)
        exact List.mem_filter.mpr ⟨hmem, decide_eq_true hle⟩

/-- After every sequence of calls, the outstanding contexts are for increasing blocks; `create`
succeeds exactly for a block greater than theirs and otherwise changes nothing; `cancel`
cancels exactly the outstanding contexts for blocks up to its own and keeps the others; and
a context that is created is cancelled once there was a cancel for its block or a greater
one, and not before. -/
theorem contexts_over_run (ops : List Op) (n : UInt64) :
    let c := run step new ops
    c.cancelByBlock.Pairwise (fun a b => a.blockNum < b.blockNum) ∧
    (∀ ctx ∈ c.cancelByBlock, ctx.ctx ∉ c.cancelled) ∧
    ((∃ ctx, (c.create n).2 = .ok ctx) ↔ ∀ ctx ∈ c.cancelByBlock, ctx.blockNum < n) ∧
    ((∃ e, (c.create n).2 = .error e) → (c.create n).1 = c) ∧
    (c.cancel n).cancelByBlock = c.cancelByBlock.filter (fun ctx => n < ctx.blockNum) ∧
    (c.cancel n).cancelled = c.cancelled ++
      (c.cancelByBlock.filter fun ctx => ctx.blockNum ≤ n).map BlockContext.ctx ∧
    ∀ ctx, (c.create n).2 = .ok ctx → ∀ later,
      (ctx ∈ (run step new (ops ++ .create n :: later)).cancelled ↔
        ∃ m, .cancel m ∈ later ∧ n ≤ m) := by
  intro c
  have h : Ordered c := run_always (P := Ordered) (fun _ op h => h.step op) ⟨.nil, rfl⟩
  obtain ⟨e, heq⟩ := h.create_eq n
  rw [h.cancel_eq]
  refine ⟨h.increasing, fun ctx => h.not_cancelled, ?_, ?_, rfl, rfl, fun ctx hctx later => ?_⟩
  · rw [heq]
    split <;> simp_all
  · rw [heq]
    split <;> simp
  · rw [run_append, run_cons]
    have hstep := h.step (.create n)
    by_cases hlt : ∀ ctx ∈ c.cancelByBlock, ctx.blockNum < n
    · rw [if_pos hlt] at heq
      rw [step, heq] at hstep ⊢
      rw [heq] at hctx
      obtain rfl := Except.ok.inj hctx
      exact @cancelled_run_iff _ hstep ⟨n, c.created⟩ (by simp [add]) later
    · rw [heq, if_neg hlt] at hctx
      cases hctx

end ChannelContext

end FabricPeerExt.Validation.ValidationCtx
