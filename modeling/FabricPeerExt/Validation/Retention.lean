/-
FabricPeerExt.Validation.Retention — how long the committer's cache keeps validation results
(`no_past_results_iff_drops`).

`Cache.Remove` takes out one block, at the beginning of a wait: what the last wait for a block has
added stays.
-/
import Mathlib.Data.List.Chain
import FabricPeerExt.Validation.ValidatorTheorems

namespace FabricPeerExt.Validation

open Lib

/-- A call of `Validate`: what is received in its first wait, and in the second if there is
one. -/
structure Call where
  block : Block
  first : List Results
  second : Option (List Results)

namespace Call

def next (v w : Call) : Prop := w.block.number.toNat = v.block.number.toNat + 1

def received (v : Call) : List Results := v.first ++ v.second.getD []

/-- The results received in the wait with which `Validate` ends. -/
def lastWait (v : Call) : List Results := v.second.getD v.first

/-- There is a second wait exactly if the first one leaves a transaction unvalidated. -/
def Waits (p : PolicyEvaluator) (cache : Cache) (v : Call) : Prop :=
  ∀ f ∈ newTxResults v.block.reset, v.second = none ↔
    (afterFirstWait p v.block cache f v.first).txResults.unvalidatedMap = []

end Call

def afterCall (p : PolicyEvaluator) (cache : Cache) (v : Call) : Cache :=
  match newTxResults v.block.reset with
  | none => cache
  | some txResults =>
    let st := afterFirstWait p v.block cache txResults v.first
    if st.txResults.unvalidatedMap = [] then st.cache
    else (waitForValidationResults p v.block.number st (v.second.getD [])).1.cache

/-- The first result for the block, cancelled validations apart, carries no error. -/
def leaves (b : UInt64) (received : List Results) : Bool :=
  (received.find? fun r => r.blockNumber = b ∧ r.err ≠ canceledText).any (·.err = "")

/-- The wait with which `Validate` ends leaves no result of the block. -/
def Call.Drops (v : Call) : Prop := leaves v.block.number v.lastWait = false

def Results.inSegment (m : UInt64) (k : UInt32) (r : Results) : Bool :=
  r.blockNumber = m ∧ hash r.txFlags = k

/-! ## §1 Waits -/

/-- In a wait for block `b`, some of the results received are added to their segments, none
of an earlier block. -/
def Grew (b : UInt64) (received : List Results) (c c' : Cache) : Prop :=
  ∀ m k, ∃ added, c'.segment m k = c.segment m k ++ added ∧
    added.Sublist (received.filter (·.inSegment m k)) ∧ (m < b → added = [])

section
variable {p : PolicyEvaluator} {b : UInt64} {c c' c'' : Cache} {received : List Results}

theorem Grew.refl : Grew b received c c :=
  fun _ _ => ⟨[], (List.append_nil _).symm, List.nil_sublist _, fun _ => rfl⟩

theorem Grew.append {received' : List Results} (h : Grew b received c c')
    (h' : Grew b received' c' c'') : Grew b (received ++ received') c c'' := by
  intro m k
  obtain ⟨added, hseg, hsub, hlt⟩ := h m k
  obtain ⟨added', hseg', hsub', hlt'⟩ := h' m k
  refine ⟨added ++ added', ?_, ?_, fun hm => ?_⟩
  · rw [hseg', hseg, List.append_assoc]
  · rw [List.filter_append]
    exact hsub.append hsub'
  · rw [hlt hm, hlt' hm, List.append_nil]

theorem Grew.add {r : Results} (h : b ≤ r.blockNumber) : Grew b [r] c (c.add r).1 := by
  intro m k
  rw [Cache.segment_add]
  split
  next hseg =>
    obtain ⟨rfl, rfl⟩ := hseg
    refine ⟨[r], rfl, ?_, fun hm => absurd hm (UInt64.not_lt.mpr h)⟩
    simp [Results.inSegment]
  next => exact Grew.refl m k

theorem Grew.handle (st : Waiting) (r : Results) :
    Grew b [r] st.cache (handleResults p b st r).1.cache := by
  unfold handleResults
  split
  next => exact .refl
  next hlt =>
    have hle := UInt64.not_lt.mp hlt
    split
    next => exact .add hle
    next =>
      split
      next => split <;> exact .refl
      next =>
        dsimp only
        split <;> exact .add hle

/-- A result ends the wait, or the wait goes on. -/
theorem waitLoop_cons (st : Waiting) (r : Results) :
    (waitLoop p b st (r :: received)).1 = (handleResults p b st r).1 ∨
      (waitLoop p b st (r :: received)).1 =
        (waitLoop p b (handleResults p b st r).1 received).1 := by
  rw [waitLoop]
  split <;> simp_all

theorem Grew.wait (st : Waiting) : Grew b received st.cache (waitLoop p b st received).1.cache := by
  induction received generalizing st with
  | nil => exact .refl
  | cons r received ih =>
    have hstep := @Grew.handle p b st r
    rcases @waitLoop_cons p b received st r with heq | heq
    · exact heq ▸ hstep.append .refl
    · exact heq ▸ hstep.append (ih _)

theorem segment_start (st : Waiting) (m : UInt64) (k : UInt32) :
    (st.start b).cache.segment m k = if m = b then [] else st.cache.segment m k := by
  split
  next heq => exact heq ▸ Cache.segment_remove _ _ _
  next hne =>
    unfold Waiting.start Cache.remove Cache.segment
    split
    · rfl
    · rw [AList.lookup_erase_ne hne]

/-- The results a wait leaves of its own block. -/
theorem waitLoop_empty_iff {st : Waiting} (h : ∀ k, st.cache.segment b k = []) :
    (∀ k, (waitLoop p b st received).1.cache.segment b k = []) ↔ leaves b received = false := by
  induction received generalizing st with
  | nil => simp [waitLoop, leaves, h]
  | cons r received ih =>
    by_cases hr : r.blockNumber = b ∧ r.err ≠ canceledText
    · have hfind : leaves b (r :: received) = decide (r.err = "") := by simp [leaves, hr]
      rw [hfind, decide_eq_false_iff_not]
      by_cases herr : r.err = ""
      · -- the result is added, and nothing takes it out before the wait ends
        refine iff_of_false (fun hall => ?_) (not_not.mpr herr)
        have hin : r ∈ (handleResults p b st r).1.cache.segment b (hash r.txFlags) := by
          rw [handleResults_added hr.1 herr]
          split <;> simp [Cache.segment_add, hr.1]
        have hempty := hall (hash r.txFlags)
        rcases @waitLoop_cons p b received st r with heq | heq
        · rw [heq] at hempty
          simp [hempty] at hin
        · obtain ⟨added, hseg, -⟩ := @Grew.wait p b received (handleResults p b st r).1 b
            (hash r.txFlags)
          rw [heq, hseg] at hempty
          simp [(List.append_eq_nil_iff.mp hempty).1] at hin
      · rw [waitLoop, handleResults_err hr.1 herr, if_neg hr.2]
        exact iff_of_true h herr
    · have hskip : (handleResults p b st r).2 = .ok false ∧
          ∀ k, (handleResults p b st r).1.cache.segment b k = [] := by
        by_cases hb : r.blockNumber = b
        · have hcan : r.err = canceledText := not_not.mp fun hne => hr ⟨hb, hne⟩
          rw [handleResults_err hb (hcan ▸ by decide), if_pos hcan]
          exact ⟨rfl, h⟩
        · obtain ⟨hres, -, hseg⟩ := @handleResults_other p b st r hb
          exact ⟨hres, fun k => (hseg k).trans (h k)⟩
      have hfind : leaves b (r :: received) = leaves b received := by simp [leaves, hr]
      rw [hfind, ← ih hskip.2, waitLoop]
      split <;> simp_all

/-! ## §2 Runs -/

theorem newTxResults_reset (block : Block) : ∃ f, newTxResults block.reset = some f :=
  ⟨_, dif_pos (by simp [Block.reset, newFlags])⟩

theorem afterCall_empty_iff {v : Call} (hwaits : v.Waits p c) :
    (∀ k, (afterCall p c v).segment v.block.number k = []) ↔ v.Drops := by
  obtain ⟨f, hf⟩ := newTxResults_reset v.block
  have hsecond := hwaits f hf
  simp only [afterCall, Call.Drops, Call.lastWait, hf]
  split
  next hnil =>
    rw [hsecond.mpr hnil]
    exact waitLoop_empty_iff (Cache.segment_remove _ _)
  next hleft =>
    obtain ⟨received, hreceived⟩ := Option.ne_none_iff_exists'.mp (mt hsecond.mp hleft)
    rw [hreceived]
    exact waitLoop_empty_iff (Cache.segment_remove _ _)

theorem segment_afterCall (v : Call) (m : UInt64) (k : UInt32) :
    ((afterCall p c v).segment m k).Sublist
      (c.segment m k ++ v.received.filter (·.inSegment m k)) ∧
    (m < v.block.number → (afterCall p c v).segment m k = c.segment m k) := by
  have hwait : ∀ (st : Waiting) (received : List Results),
      ((waitForValidationResults p v.block.number st received).1.cache.segment m k).Sublist
        (st.cache.segment m k ++ received.filter (·.inSegment m k)) ∧
      (m < v.block.number →
        (waitForValidationResults p v.block.number st received).1.cache.segment m k =
          st.cache.segment m k) := by
    intro st received
    obtain ⟨added, hseg, hsub, hlt⟩ := @Grew.wait p _ received (st.start v.block.number) m k
    rw [waitForValidationResults, hseg, segment_start]
    refine ⟨.append ?_ hsub, fun hm => ?_⟩
    · split <;> simp
    · rw [if_neg (UInt64.ne_of_lt hm), hlt hm, List.append_nil]
  obtain ⟨f, hf⟩ := newTxResults_reset v.block
  obtain ⟨hsub, heq⟩ := hwait ⟨c, f⟩ v.first
  obtain ⟨hsub', heq'⟩ := hwait (afterFirstWait p v.block c f v.first) (v.second.getD [])
  simp only [afterCall, hf, Call.received, List.filter_append, ← List.append_assoc]
  split
  · exact ⟨hsub.trans (List.sublist_append_left _ _), heq⟩
  · exact ⟨hsub'.trans (hsub.append (.refl _)), fun hm => (heq' hm).trans (heq hm)⟩

variable {calls : List Call}

/-- The run: no result of a block up to the last one is left. -/
theorem segment_run_eq_nil (hcons : calls.IsChain Call.next)
    (hwaits : Meets (afterCall p) (Call.Waits p) ∅ calls) (h : ∀ v ∈ calls, v.Drops)
    (hb : ∀ v ∈ calls.getLast?, b ≤ v.block.number) (k : UInt32) :
    (run (afterCall p) ∅ calls).segment b k = [] := by
  induction calls using List.reverseRecOn with
  | nil => rfl
  | append_singleton calls v ih =>
    obtain ⟨hcalls, hv, -⟩ := Meets.append.mp hwaits
    obtain ⟨hchain, -, hnext⟩ := List.isChain_append.mp hcons
    have hle : b ≤ v.block.number := hb v (by simp)
    rw [run_append, run_cons, run_nil]
    by_cases heq : b = v.block.number
    · exact heq ▸ (afterCall_empty_iff hv).mpr (h v (by simp)) k
    · have hlt := UInt64.lt_of_le_of_ne hle heq
      rw [(segment_afterCall v b k).2 hlt]
      refine ih hchain hcalls (fun u hu => h u (List.mem_append_left _ hu)) fun u hu =>
        UInt64.le_iff_toNat_le.mpr ?_
      have hsucc : v.block.number.toNat = u.block.number.toNat + 1 := hnext u hu v rfl
      have hlt' := UInt64.lt_iff_toNat_lt.mp hlt
      omega

/-- The cache holds what was received, no result more often than it was received. -/
theorem segment_run_sublist (m : UInt64) (k : UInt32) :
    ((run (afterCall p) ∅ calls).segment m k).Sublist
      ((calls.flatMap Call.received).filter (·.inSegment m k)) := by
  induction calls using List.reverseRecOn with
  | nil => exact List.nil_sublist _
  | append_singleton calls v ih =>
    rw [run_append, List.flatMap_append, List.filter_append, List.flatMap_singleton]
    exact (segment_afterCall v m k).1.trans (ih.append (.refl _))

end

/-- **Retention.** In every run of `Validate` over consecutive blocks, whatever is received,
no result of a block that was validated is in the cache after any of the calls, exactly if
every call ends with a wait that drops the results of its block. The cache has no more than
was received, and then no more than was received for future blocks. -/
theorem no_past_results_iff_drops (p : PolicyEvaluator) (calls : List Call)
    (hcons : calls.IsChain Call.next) (hwaits : Meets (afterCall p) (Call.Waits p) ∅ calls) :
    ((∀ v ∈ calls, v.Drops) ↔
      ∀ done v rest, calls = done ++ v :: rest → ∀ b ≤ v.block.number, ∀ k,
        (run (afterCall p) ∅ (done ++ [v])).segment b k = []) ∧
    ∀ b k, ((run (afterCall p) ∅ calls).segment b k).Sublist
      ((calls.flatMap Call.received).filter (·.inSegment b k)) := by
  refine ⟨⟨?_, fun h v hv => ?_⟩, segment_run_sublist⟩
  · rintro h done v rest rfl b hb k
    rw [List.append_cons] at h hcons hwaits
    refine segment_run_eq_nil (List.isChain_append.mp hcons).1 (Meets.append.mp hwaits).1
      (fun u hu => h u (List.mem_append_left _ hu)) ?_ k
    simpa using hb
  · obtain ⟨done, rest, rfl⟩ := List.append_of_mem hv
    have hempty := h done v rest rfl v.block.number (UInt64.le_refl _)
    rw [run_append] at hempty
    exact (afterCall_empty_iff (Meets.append.mp hwaits).2.1).mp hempty

def ownOf (n : UInt64) (err : String) : Results := { ownResult with blockNumber := n, err := err }

def ownCall (n : UInt64) (err : String) : Call := ⟨⟨n, [[]], []⟩, [], some [ownOf n err]⟩

/-- Results of the next two blocks are received while this one fails. -/
def failed1000 : Call :=
  ⟨⟨1000, [[]], []⟩, [ownOf 1001 "", ownOf 1002 ""], some [ownOf 1000 "failed"]⟩

def failed1001 : Call :=
  ⟨⟨1001, [[]], []⟩, [ownOf 1000 ""], some [ownOf 1001 canceledText, ownOf 1001 "failed"]⟩

/-- Of the two blocks nothing is left, of the next one the result. -/
theorem no_past_results_of_failed :
    (∀ b ≤ 1001, ∀ k,
      (run (afterCall strictPolicy) ∅ [failed1000, failed1001]).segment b k = []) ∧
    (run (afterCall strictPolicy) ∅ [failed1000, failed1001]).segment 1002 (hash [valid]) =
      [ownOf 1002 ""] := by
  refine ⟨(no_past_results_iff_drops strictPolicy [failed1000, failed1001] ?_ ?_).1.mp ?_
    [failed1000] failed1001 [] rfl, by decide +kernel⟩
  · simp [Call.next, failed1000, failed1001]
  · refine ⟨?_, ?_, trivial⟩
    · rintro f ⟨⟩
      decide +kernel
    · rintro f ⟨⟩
      decide +kernel
  · simp only [List.mem_cons, List.not_mem_nil, or_false, forall_eq_or_imp, forall_eq, Call.Drops]
    decide

/-- Two blocks are validated without an error, and the result of the first one stays. -/
theorem validated_results_stay :
    Call.next (ownCall 1000 "") (ownCall 1001 "") ∧
    validate strictPolicy ⟨1000, [[]], []⟩ ∅ [] [ownOf 1000 ""] = .ok [valid] ∧
    (run (afterCall strictPolicy) ∅ [ownCall 1000 "", ownCall 1001 ""]).segment 1000
      (hash [valid]) = [ownResult] :=
  ⟨rfl, rfl, by decide +kernel⟩

end FabricPeerExt.Validation
