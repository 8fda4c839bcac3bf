/-
FabricPeerExt.Validation.TxResultsTheorems — distributed validation gives the flags of centralised
validation. The marking of duplicates on incomplete information never has to be undone.
-/
import FabricPeerExt.Validation.TxResults
import FabricPeerExt.Lib.Run

namespace FabricPeerExt.Validation

open Lib

/-! ## §1 One merge -/

namespace TxResults

variable {f : TxResults} {flags : ValidationFlags} {txIDs : List TxID}

theorem merge_eq_merged (hflags : flags.length = f.flags.length)
    (htx : txIDs.length = f.txIDs.length) :
    f.merge flags txIDs = (f.merged flags txIDs, .ok (f.merged flags txIDs).allValidated) := by
  simp [merge, hflags, htx]

/-- A merge with a wrong length returns an error and leaves the state as it was. -/
theorem merge_of_length_ne
    (h : flags.length ≠ f.flags.length ∨ txIDs.length ≠ f.txIDs.length) :
    (f.merge flags txIDs).1 = f ∧ ∃ msg, (f.merge flags txIDs).2 = .error msg := by
  unfold merge
  split
  next => exact ⟨rfl, _, rfl⟩
  next hflags =>
    have htx : txIDs.length ≠ f.txIDs.length := h.resolve_left hflags
    rw [if_pos htx]
    exact ⟨rfl, _, rfl⟩

variable {i : Nat}

theorem getElem?_merged_of_repeats (h : Repeats (f.merged flags txIDs).txIDs i) :
    (f.merged flags txIDs).flags[i]? = some duplicateTxid := (f.merged flags txIDs).marked i h

theorem getElem?_merged_of_not (h : ¬ Repeats (f.merged flags txIDs).txIDs i) :
    (f.merged flags txIDs).flags[i]? =
      if f.flags[i]? = some notValidated then some (flags[i]?.getD notValidated)
      else f.flags[i]? := by
  exact (getElem?_markDuplicateTxIDs_of_not h).trans ((loopDone_mergeLoop f flags txIDs).flagAt i)

theorem getElem?_txIDs_merged (i : Nat) :
    (f.merged flags txIDs).txIDs[i]? =
      if f.flags[i]? = some notValidated ∧ flags[i]?.getD notValidated ≠ notValidated then
        some (txIDs[i]?.getD [])
      else f.txIDs[i]? :=
  (loopDone_mergeLoop f flags txIDs).txIDAt i

/-- A merge never resets a flag: what is set stays set (to the same code, or to
`DUPLICATE_TXID`). -/
theorem merge_keeps_set (f : TxResults) (flags : ValidationFlags) (txIDs : List TxID)
    (h : f.flags[i]? ≠ some notValidated) :
    (f.merge flags txIDs).1.flags[i]? = f.flags[i]? ∨
      (f.merge flags txIDs).1.flags[i]? = some duplicateTxid := by
  by_cases hlen : flags.length ≠ f.flags.length ∨ txIDs.length ≠ f.txIDs.length
  · left
    rw [(merge_of_length_ne hlen).1]
  · push Not at hlen
    rw [merge_eq_merged hlen.1 hlen.2]
    by_cases hr : Repeats (f.merged flags txIDs).txIDs i
    · exact .inr (getElem?_merged_of_repeats hr)
    · left
      rw [getElem?_merged_of_not hr, if_neg h]

theorem allValidated_iff : f.allValidated = true ↔ ∀ i : Nat, f.flags[i]? ≠ some notValidated := by
  rw [allValidated, List.all_eq_true]
  constructor
  · intro h i hi
    simpa using h _ (List.mem_of_getElem? hi)
  · intro h flag hmem
    obtain ⟨i, hi⟩ := List.mem_iff_getElem?.mp hmem
    have := h i
    simp only [hi, ne_eq, Option.some.injEq] at this
    simpa using this

end TxResults

/-! ## §2 Partial results -/

/-- What validation says about the transactions of a block: the code and the ID. -/
abbrev Truth := List (Code × TxID)

def respond (truth : Truth) (i : Nat) : BlockValidationResult :=
  match truth[i]? with
  | some (code, txid) => ⟨i, code, txid, none⟩
  | none => ⟨i, notValidated, [], none⟩

@[simp] theorem tIdx_respond (truth : Truth) (i : Nat) : (respond truth i).tIdx = i := by
  unfold respond
  split <;> rfl

theorem notValidated_ne_valid : notValidated ≠ valid := by decide

/-- The flags and IDs of an honest validator: what `validateBlock` returns for the
transactions that pass some filter, whose responses come back in some order. -/
def Honest (truth : Truth) (block : Block) (r : ValidationFlags × List TxID) : Prop :=
  ∃ (shouldValidate : TxFilter) (responses : List BlockValidationResult),
    responses.Perm
      ((getTransactionsToValidate block.reset shouldValidate).map (respond truth)) ∧
    validateBlock block.reset responses = ⟨none, r.1, r.2⟩

/-- The truth about the transactions in `U`; the others are not validated. -/
def mask (U : Nat → Bool) (truth : Truth) : Truth :=
  truth.mapIdx fun i t => if U i then t else (notValidated, [])

/-- The IDs a validator gives: those of the valid transactions. -/
def givenIDs (truth : Truth) : List TxID := truth.map fun t => if t.1 = valid then t.2 else []

theorem getElem?_mask (U : Nat → Bool) (truth : Truth) (i : Nat) :
    (mask U truth)[i]? = truth[i]?.map fun t => if U i then t else (notValidated, []) := by
  simp [mask]

theorem getElem?_givenIDs (truth : Truth) (i : Nat) :
    (givenIDs truth)[i]? = truth[i]?.map fun t => if t.1 = valid then t.2 else [] := by
  simp [givenIDs]

@[simp] theorem length_mask (U : Nat → Bool) (truth : Truth) :
    (mask U truth).length = truth.length := by
  simp [mask]

/-- A response adds its transaction to the masked truth. -/
theorem handleResponse_respond (truth : Truth) (U : Nat → Bool) (i : Nat) :
    handleResponse ⟨none, (mask U truth).map Prod.fst, givenIDs (mask U truth)⟩
        (respond truth i) =
      ⟨none, (mask (fun j => U j || j = i) truth).map Prod.fst,
        givenIDs (mask (fun j => U j || j = i) truth)⟩ := by
  have hother : ∀ j, j ≠ i → (mask (fun j => U j || j = i) truth)[j]? = (mask U truth)[j]? := by
    intro j hj
    simp [getElem?_mask, hj]
  have hhere : (mask (fun j => U j || j = i) truth)[i]? = truth[i]? := by
    simp [getElem?_mask]
  unfold respond
  cases hi : truth[i]? with
  | none =>
    -- an index beyond the block changes nothing
    have hle : truth.length ≤ i := List.getElem?_eq_none_iff.mp hi
    have hmask : mask (fun j => U j || j = i) truth = mask U truth := by
      refine List.ext_getElem? fun j => ?_
      by_cases hj : j = i
      · subst hj
        rw [hhere, getElem?_mask, hi, Option.map_none]
      · exact hother j hj
    have hset : ((mask U truth).map Prod.fst).set i notValidated = (mask U truth).map Prod.fst :=
      List.set_eq_of_length_le (by simpa using hle)
    simp only [handleResponse, hset, notValidated_ne_valid, if_false, hmask]
  | some t =>
    obtain ⟨code, txid⟩ := t
    obtain ⟨hlt, -⟩ := List.getElem?_eq_some_iff.mp hi
    have hltmap : i < ((mask U truth).map Prod.fst).length := by simpa using hlt
    have hltids : i < (givenIDs (mask U truth)).length := by simpa [givenIDs] using hlt
    simp only [handleResponse, BlockValidation.mk.injEq, true_and]
    constructor
    · refine List.ext_getElem? fun j => ?_
      by_cases hj : j = i
      · subst hj
        rw [List.getElem?_set_self hltmap, List.getElem?_map, hhere, hi, Option.map_some]
      · rw [List.getElem?_set_ne (Ne.symm hj), List.getElem?_map, List.getElem?_map, hother j hj]
    · refine List.ext_getElem? fun j => ?_
      by_cases hj : j = i
      · subst hj
        rw [getElem?_givenIDs _ j, hhere, hi, Option.map_some]
        by_cases hv : code = valid
        · rw [if_pos hv, if_pos hv, List.getElem?_set_self hltids]
        · -- the ID of an invalid transaction was not given before either
          rw [if_neg hv, if_neg hv, getElem?_givenIDs, getElem?_mask, hi, Option.map_some,
            Option.map_some, Option.some.injEq]
          refine if_neg ?_
          split
          · exact hv
          · exact notValidated_ne_valid
      · rw [getElem?_givenIDs _ j, hother j hj, ← getElem?_givenIDs]
        split
        · rw [List.getElem?_set_ne (Ne.symm hj)]
        · rfl

variable {truth : Truth}

variable {block : Block} {i : Nat} {U : Nat → Bool}

/-- The loop of `validateBlock` after the responses of the transactions `seen`: no error,
and the truth masked to `seen`. -/
theorem validateBlock_respond (hlen : truth.length = block.data.length) (seen : List Nat) :
    validateBlock block (seen.map (respond truth)) =
      ⟨none, (mask (fun i => i ∈ seen) truth).map Prod.fst,
        givenIDs (mask (fun i => i ∈ seen) truth)⟩ := by
  induction seen using List.reverseRecOn with
  | nil =>
    have hmask : mask (fun i => i ∈ ([] : List Nat)) truth =
        List.replicate truth.length (notValidated, []) := by
      simp [mask, List.eq_replicate_iff]
    rw [hmask]
    simp [validateBlock, givenIDs, newFlags, hlen, valid, notValidated]
  | append_singleton seen i ih =>
    have hseen : (fun j => decide (j ∈ seen ++ [i])) = fun j => decide (j ∈ seen) || j = i := by
      funext j
      simp
    rw [hseen, ← handleResponse_respond, ← ih]
    simp [validateBlock]

/-- The responses of the transactions `txs`, in the order in which they came back, are those
of a list of indexes. -/
theorem perm_respond {responses : List BlockValidationResult} {txs : List Nat}
    (h : responses.Perm (txs.map (respond truth))) :
    responses = (responses.map BlockValidationResult.tIdx).map (respond truth) := by
  rw [List.map_map]
  refine ((List.map_congr_left fun res hres => ?_).trans (List.map_id _)).symm
  obtain ⟨i, -, rfl⟩ := List.mem_map.mp (h.mem_iff.mp hres)
  simp

/-- An honest partial result is the truth masked to the transactions it is about. -/
theorem Honest.exists_mask {r : ValidationFlags × List TxID}
    (hlen : truth.length = block.data.length) (h : Honest truth block r) :
    ∃ S : Nat → Bool, r.1 = (mask S truth).map Prod.fst ∧ r.2 = givenIDs (mask S truth) := by
  obtain ⟨shouldValidate, responses, hperm, hval⟩ := h
  rw [perm_respond hperm, @validateBlock_respond truth block.reset hlen] at hval
  refine ⟨fun i => i ∈ responses.map BlockValidationResult.tIdx, ?_, ?_⟩
  · exact (congrArg BlockValidation.txsfltr hval).symm
  · exact (congrArg BlockValidation.txidArray hval).symm

/-! ## §3 Confluence -/

/-- The flags of one peer that validates every transaction, and then marks every valid
transaction whose ID occurs among the valid ones before it. A transaction without an ID
(the empty string) has no ID that could occur before. -/
def central (truth : Truth) : ValidationFlags :=
  truth.mapIdx fun i t =>
    if t.1 = valid ∧ t.2 ≠ [] ∧ (valid, t.2) ∈ truth.take i then duplicateTxid else t.1

theorem getElem?_central (truth : Truth) (i : Nat) :
    (central truth)[i]? = truth[i]?.map fun t =>
      if t.1 = valid ∧ t.2 ≠ [] ∧ (valid, t.2) ∈ truth.take i then duplicateTxid else t.1 := by
  simp [central]

/-- The state is the central outcome of the truth masked to `U`. -/
structure Agrees (truth : Truth) (U : Nat → Bool) (f : TxResults) : Prop where
  flags : f.flags = central (mask U truth)
  txIDs : f.txIDs = givenIDs (mask U truth)

theorem mem_take_mask {txid : TxID} : (valid, txid) ∈ (mask U truth).take i ↔
      ∃ j < i, U j = true ∧ truth[j]? = some (valid, txid) := by
  rw [List.mem_take_iff_getElem]
  constructor
  · rintro ⟨j, hj, heq⟩
    have hlt : j < i := by omega
    have hsome : (mask U truth)[j]? = some (valid, txid) := by
      rw [List.getElem?_eq_getElem (by omega), heq]
    rw [getElem?_mask, Option.map_eq_some_iff] at hsome
    obtain ⟨t, ht, heq'⟩ := hsome
    by_cases hU : U j = true
    · rw [if_pos hU] at heq'
      exact ⟨j, hlt, hU, heq' ▸ ht⟩
    · rw [if_neg hU] at heq'
      exact absurd (congrArg Prod.fst heq') notValidated_ne_valid
  · rintro ⟨j, hlt, hU, htruth⟩
    obtain ⟨hj, heq⟩ := List.getElem?_eq_some_iff.mp htruth
    refine ⟨j, by simpa using ⟨hlt, hj⟩, ?_⟩
    simp [mask, hU, heq]

theorem repeats_givenIDs :
    Repeats (givenIDs truth) i ↔
      ∃ txid, truth[i]? = some (valid, txid) ∧ txid ≠ [] ∧ (valid, txid) ∈ truth.take i := by
  have hmem : ∀ txid : TxID, txid ≠ [] →
      (txid ∈ (givenIDs truth).take i ↔ (valid, txid) ∈ truth.take i) := by
    intro txid hne
    rw [givenIDs, ← List.map_take, List.mem_map]
    constructor
    · rintro ⟨⟨code, id⟩, ht, heq⟩
      by_cases hv : code = valid
      · subst hv
        simp only [if_true] at heq
        exact heq ▸ ht
      · simp only [hv, if_false] at heq
        exact absurd heq.symm hne
    · exact fun ht => ⟨_, ht, by simp⟩
  constructor
  · rintro ⟨txid, htx, hne, hin⟩
    rw [getElem?_givenIDs, Option.map_eq_some_iff] at htx
    obtain ⟨⟨code, id⟩, ht, heq⟩ := htx
    by_cases hv : code = valid
    · subst hv
      simp only [if_true] at heq
      exact ⟨txid, heq ▸ ht, hne, (hmem txid hne).mp hin⟩
    · simp only [hv, if_false] at heq
      exact absurd heq.symm hne
  · rintro ⟨txid, ht, hne, hin⟩
    exact ⟨txid, by simp [getElem?_givenIDs, ht], hne, (hmem txid hne).mpr hin⟩

/-- The marking of a state that knows the truth about a part, at an index with a flag. -/
theorem getElem?_central_of_repeats
    (h : Repeats (givenIDs truth) i) : (central truth)[i]? = some duplicateTxid := by
  obtain ⟨txid, ht, hne, hin⟩ := repeats_givenIDs.mp h
  simp [getElem?_central, ht, hne, hin]

theorem getElem?_central_of_not (h : ¬ Repeats (givenIDs truth) i) :
    (central truth)[i]? = truth[i]?.map Prod.fst := by
  rw [getElem?_central]
  cases ht : truth[i]? with
  | none => rfl
  | some t =>
    obtain ⟨code, txid⟩ := t
    simp only [Option.map_some, Option.some.injEq]
    refine if_neg fun ⟨hv, hne, hin⟩ => h (repeats_givenIDs.mpr ⟨txid, ?_, hne, hin⟩)
    rw [ht]
    exact congrArg some (Prod.ext hv rfl)

/-- A flag of the central outcome is unset where the truth has none. -/
theorem central_unset_iff :
    (central truth)[i]? = some notValidated ↔ truth[i]?.map Prod.fst = some notValidated := by
  by_cases h : Repeats (givenIDs truth) i
  · obtain ⟨txid, ht, -⟩ := repeats_givenIDs.mp h
    have hdup : duplicateTxid ≠ notValidated := by decide
    simp [getElem?_central_of_repeats h, ht, hdup, notValidated_ne_valid.symm]
  · rw [getElem?_central_of_not h]

/-- What is marked on less information is marked on more. -/
theorem Repeats.mono_mask {V : Nat → Bool} (hUV : ∀ j, U j = true → V j = true)
    (h : Repeats (givenIDs (mask U truth)) i) :
    Repeats (givenIDs (mask V truth)) i := by
  obtain ⟨txid, ht, hne, hin⟩ := repeats_givenIDs.mp h
  obtain ⟨j, hj, hUj, htj⟩ := mem_take_mask.mp hin
  refine repeats_givenIDs.mpr ⟨txid, ?_, hne, mem_take_mask.mpr ⟨j, hj, hUV j hUj, htj⟩⟩
  rw [getElem?_mask, Option.map_eq_some_iff] at ht ⊢
  obtain ⟨t, hti, heq⟩ := ht
  by_cases hU : U i = true
  · refine ⟨t, hti, ?_⟩
    rw [if_pos hU] at heq
    rw [if_pos (hUV i hU), heq]
  · rw [if_neg hU] at heq
    exact absurd (congrArg Prod.fst heq) notValidated_ne_valid

/-- The step: merging the truth about `S` into a state that agrees with the truth about
`U` gives a state that agrees with the truth about `U ∪ S`. -/
theorem Agrees.merge {f : TxResults} (h : Agrees truth U f) (S : Nat → Bool) :
    Agrees truth (fun i => U i || S i)
      (f.merge ((mask S truth).map Prod.fst) (givenIDs (mask S truth))).1 := by
  have hlen : f.flags.length = truth.length := by
    rw [h.flags]
    simp [central]
  rw [TxResults.merge_eq_merged (by simp [hlen]) (by simp [f.sized, hlen, givenIDs])]
  have htxIDs : (f.merged ((mask S truth).map Prod.fst) (givenIDs (mask S truth))).txIDs =
      givenIDs (mask (fun i => U i || S i) truth) := by
    refine List.ext_getElem? fun i => ?_
    rw [TxResults.getElem?_txIDs_merged, h.flags, h.txIDs]
    simp only [central_unset_iff, List.getElem?_map, getElem?_mask, getElem?_givenIDs]
    cases truth[i]? with
    | none => simp
    | some t =>
      -- the ID is the one of `S` where `U` has no flag, and the one of `U` elsewhere
      obtain ⟨code, txid⟩ := t
      by_cases hcode : code = notValidated
      · cases U i <;> cases S i <;> simp [hcode, notValidated_ne_valid]
      · cases U i <;> cases S i <;> simp [hcode, notValidated_ne_valid]
  refine ⟨List.ext_getElem? fun i => ?_, htxIDs⟩
  by_cases hr : Repeats (givenIDs (mask (fun i => U i || S i) truth)) i
  · rw [getElem?_central_of_repeats hr, TxResults.getElem?_merged_of_repeats (htxIDs ▸ hr)]
  · have hrU : ¬ Repeats (givenIDs (mask U truth)) i :=
      fun hU => hr (hU.mono_mask fun j hj => by simp [hj])
    rw [getElem?_central_of_not hr, TxResults.getElem?_merged_of_not (htxIDs ▸ hr), h.flags,
      getElem?_central_of_not hrU]
    simp only [List.getElem?_map, getElem?_mask]
    cases truth[i]? with
    | none => simp
    | some t =>
      obtain ⟨code, txid⟩ := t
      by_cases hcode : code = notValidated
      · cases U i <;> cases S i <;> simp [hcode]
      · cases U i <;> cases S i <;> simp [hcode]

def mergeAll (f : TxResults) (rs : List (ValidationFlags × List TxID)) : TxResults :=
  run (fun f r => (f.merge r.1 r.2).1) f rs

/-- The run: whatever honest results have been merged, the state agrees with the truth
about the transactions they are about. -/
theorem agrees_run (hlen : truth.length = block.data.length)
    {f : TxResults} (h : Agrees truth U f) :
    ∀ {rs : List (ValidationFlags × List TxID)}, (∀ r ∈ rs, Honest truth block r) →
      ∃ V, Agrees truth V (mergeAll f rs) := by
  intro rs
  induction rs generalizing U f with
  | nil => exact fun _ => ⟨U, h⟩
  | cons r rs ih =>
    intro hrs
    obtain ⟨S, hflags, htxIDs⟩ := (hrs r (List.mem_cons_self ..)).exists_mask hlen
    have hstep := h.merge S
    rw [← hflags, ← htxIDs] at hstep
    exact ih hstep fun r' hr' => hrs r' (List.mem_cons_of_mem _ hr')

/-- The state of a block no result has been merged for. -/
theorem agrees_newTxResults (hlen : truth.length = block.data.length) :
    ∃ f, newTxResults block.reset = some f ∧ Agrees truth (fun _ => false) f := by
  have hmask : mask (fun _ => false) truth =
      List.replicate block.data.length (notValidated, []) := by
    simp [mask, List.eq_replicate_iff, hlen]
  have hle : block.reset.data.length ≤ block.reset.filter.length := by
    simp [Block.reset, newFlags]
  refine ⟨_, dif_pos hle, ?_, ?_⟩
  · refine List.ext_getElem? fun i => ?_
    have hr : ¬ Repeats (givenIDs (mask (fun _ => false) truth)) i := by
      rw [hmask]
      simpa [givenIDs, notValidated, valid] using not_repeats_replicate_nil block.data.length i
    rw [getElem?_central_of_not hr, hmask, ← List.getElem?_map, List.map_replicate]
    simp [Block.reset, newFlags]
  · rw [hmask]
    simp [Block.reset, givenIDs, notValidated, valid]

/-- Where every flag is set, the state agrees with the whole truth. -/
theorem Agrees.flags_of_allValidated {f : TxResults}
    (h : Agrees truth U f) (hall : f.allValidated = true) : f.flags = central truth := by
  have hmask : mask U truth = truth := by
    refine List.ext_getElem? fun i => ?_
    have hset := TxResults.allValidated_iff.mp hall i
    rw [h.flags, ne_eq, central_unset_iff, getElem?_mask] at hset
    rw [getElem?_mask]
    cases ht : truth[i]? with
    | none => rfl
    | some t =>
      by_cases hU : U i = true
      · simp [hU]
      · exact absurd (by simp [ht, hU]) hset
  rw [h.flags, hmask]

/-- **Distributed validation refines centralised validation.** For every block and
everything validation says about it, partial results of honest validators for any
(overlapping) parts, merged in any order and with any repetitions, give the central flags
once every transaction is validated; no merge, honest or not, resets a flag; and a merge
with a wrong length returns an error and changes nothing. -/
theorem distributed_validation_refines_central :
    (∀ (truth : Truth) (block : Block) (rs : List (ValidationFlags × List TxID)),
      truth.length = block.data.length → (∀ r ∈ rs, Honest truth block r) →
      ∃ f, newTxResults block.reset = some f ∧
        ((mergeAll f rs).allValidated = true → (mergeAll f rs).flags = central truth)) ∧
    (∀ (f : TxResults) (flags : ValidationFlags) (txIDs : List TxID) (i : Nat),
      f.flags[i]? ≠ some notValidated →
      (f.merge flags txIDs).1.flags[i]? ≠ some notValidated) ∧
    (∀ (f : TxResults) (flags : ValidationFlags) (txIDs : List TxID),
      flags.length ≠ f.flags.length ∨ txIDs.length ≠ f.txIDs.length →
      (f.merge flags txIDs).1 = f ∧ ∃ msg, (f.merge flags txIDs).2 = .error msg) := by
  refine ⟨fun truth block rs hlen hrs => ?_, fun f flags txIDs i hset => ?_,
    fun f flags txIDs h => TxResults.merge_of_length_ne h⟩
  · obtain ⟨f, hf, hagrees⟩ := agrees_newTxResults hlen
    obtain ⟨V, hV⟩ := agrees_run hlen hagrees hrs
    exact ⟨f, hf, hV.flags_of_allValidated⟩
  · rcases TxResults.merge_keeps_set f flags txIDs hset with h | h
    · rwa [h]
    · rw [h]
      decide

def threeTxs : Block := ⟨1000, [[], [], []], []⟩

def threeTruth : Truth := [(valid, [1]), (valid, [2]), (valid, [2])]

/-- Two validators with overlapping parts of `threeTxs`: the later copy of the repeated ID
is merged first, and found to be a duplicate when the earlier one comes in. -/
theorem distributed_validation_two_validators :
    ((newTxResults threeTxs.reset).map fun f =>
      (mergeAll f [([notValidated, notValidated, valid], [[], [], [2]]),
        ([valid, valid, notValidated], [[1], [2], []]),
        ([notValidated, valid, valid], [[], [2], [2]])]).flags) =
      some [valid, valid, duplicateTxid] := by
  have hhonest : ∀ r ∈ [([notValidated, notValidated, valid], [[], [], [2]]),
      ([valid, valid, notValidated], [[1], [2], []]),
      ([notValidated, valid, valid], [[], [2], [2]])], Honest threeTruth threeTxs r := by
    intro r hr
    simp only [List.mem_cons, List.not_mem_nil, or_false] at hr
    rcases hr with rfl | rfl | rfl
    · exact ⟨fun i => i = 2, [respond threeTruth 2], .refl _, rfl⟩
    · exact ⟨fun i => i < 2, [respond threeTruth 1, respond threeTruth 0], .swap _ _ _, rfl⟩
    · exact ⟨fun i => 0 < i, [respond threeTruth 1, respond threeTruth 2], .refl _, rfl⟩
  obtain ⟨f, hf, hcentral⟩ :=
    distributed_validation_refines_central.1 threeTruth threeTxs _ rfl hhonest
  have hall : ((newTxResults threeTxs.reset).map fun f =>
      (mergeAll f [([notValidated, notValidated, valid], [[], [], [2]]),
        ([valid, valid, notValidated], [[1], [2], []]),
        ([notValidated, valid, valid], [[], [2], [2]])]).allValidated) = some true := by
    decide
  rw [hf, Option.map_some, Option.some.injEq] at hall
  rw [hf, Option.map_some, hcentral hall]
  rfl

end FabricPeerExt.Validation
