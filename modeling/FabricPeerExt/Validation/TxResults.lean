/-
FabricPeerExt.Validation.TxResults — the transaction results of a block,
`pkg/validation/validator/txresults.go` and the part of `validator.go` that produces results.

The invariants of `TxResults` are fields of the structure. `Merge` changes its receiver and
returns a value. The locks and the log lines are left out.
-/
import FabricPeerExt.Lib.ByteOrder
import FabricPeerExt.Lib.Indexed

namespace FabricPeerExt.Validation

open Lib

/-! ## Codes and flags -/

/-- `peer.TxValidationCode` as it is stored in the flags of a block. -/
abbrev Code := UInt8

def valid : Code := 0

def duplicateTxid : Code := 9

def notValidated : Code := 254

abbrev ValidationFlags := List Code

/-- `txflags.New`, where no flag is set. -/
def newFlags (size : Nat) : ValidationFlags := List.replicate size notValidated

/-- A transaction ID. The empty string stands for none: the slices of IDs start out
with empty strings. -/
abbrev TxID := Bytes

instance lawfulBEqTxID : LawfulBEq TxID := inferInstance

/-- What the validator reads of `common.Block`: the number, the transactions, and the
transaction filter of the metadata. -/
structure Block where
  number : UInt64
  data : List Bytes
  filter : ValidationFlags

/-- The block with every flag set to `NOT_VALIDATED`, as `Validate` and
`ValidatePartial` set it first. -/
def Block.reset (block : Block) : Block := { block with filter := newFlags block.data.length }

/-! ## Duplicate marking -/

def Repeats (txIDs : List TxID) (i : Nat) : Prop :=
  ∃ txID, txIDs[i]? = some txID ∧ txID ≠ [] ∧ txID ∈ txIDs.take i

structure Marking where
  txIDMap : List TxID
  flags : ValidationFlags

def markDuplicateTxID (m : Marking) (i : Nat) (txID : TxID) : Marking :=
  if txID = [] then m
  else if txID ∈ m.txIDMap then { m with flags := m.flags.set i duplicateTxid }
  else { m with txIDMap := txID :: m.txIDMap }

/-- `txResults.markDuplicateTxIDs`. -/
def markDuplicateTxIDs (flags : ValidationFlags) (txIDs : List TxID) : ValidationFlags :=
  (forIdx markDuplicateTxID ⟨[], flags⟩ txIDs).flags

variable {txIDs : List TxID}

theorem Repeats.lt_length {i : Nat} (h : Repeats txIDs i) :
    i < txIDs.length := by
  obtain ⟨_, htx, _⟩ := h
  exact (List.getElem?_eq_some_iff.mp htx).1

/-- An index is repeated in the longer slice when it was, or is the new one. -/
theorem repeats_concat_iff (seen : List TxID) (txID : TxID) (i : Nat) :
    Repeats (seen ++ [txID]) i ↔
      Repeats seen i ∨ i = seen.length ∧ txID ≠ [] ∧ txID ∈ seen := by
  rcases lt_trichotomy i seen.length with hi | hi | hi
  · simp [Repeats, List.getElem?_append_left hi, List.take_append_of_le_length (Nat.le_of_lt hi),
      Nat.ne_of_lt hi]
  · subst hi
    simp [Repeats]
  · have hnot : ¬ Repeats seen i := fun h => Nat.lt_asymm hi h.lt_length
    have hnot' : ¬ Repeats (seen ++ [txID]) i := fun h => by
      have := h.lt_length
      simp only [List.length_append, List.length_singleton] at this
      omega
    simp [hnot, hnot', Nat.ne_of_gt hi]

/-- What the loop has done after the IDs `seen`: it knows the IDs among them, and the
flags differ at the repeated ones only. -/
structure Marked (flags : ValidationFlags) (seen : List TxID) (m : Marking) : Prop where
  known : ∀ txID, txID ∈ m.txIDMap ↔ txID ≠ [] ∧ txID ∈ seen
  length : m.flags.length = flags.length
  repeated : ∀ i, i < flags.length → Repeats seen i → m.flags[i]? = some duplicateTxid
  kept : ∀ i, ¬ Repeats seen i → m.flags[i]? = flags[i]?

variable (flags : ValidationFlags)

theorem marked_step (seen : List TxID) (txID : TxID) (m : Marking)
    (h : Marked flags seen m) :
    Marked flags (seen ++ [txID]) (markDuplicateTxID m seen.length txID) := by
  have hrep := repeats_concat_iff seen txID
  unfold markDuplicateTxID
  split
  next hempty =>
    -- no ID: nothing to mark, nothing to remember
    have hrep' : ∀ i, Repeats (seen ++ [txID]) i ↔ Repeats seen i := by
      intro i
      rw [hrep]
      simp [hempty]
    refine ⟨fun t => ?_, h.length, fun i hi hr => h.repeated i hi ((hrep' i).mp hr),
      fun i hr => h.kept i (mt (hrep' i).mpr hr)⟩
    rw [h.known, List.mem_append, List.mem_singleton]
    constructor
    · exact fun ⟨hne, hmem⟩ => ⟨hne, .inl hmem⟩
    · rintro ⟨hne, hmem | rfl⟩
      · exact ⟨hne, hmem⟩
      · exact absurd hempty hne
  next hne =>
    split
    next hseen =>
      obtain ⟨-, hmem⟩ := (h.known txID).mp hseen
      refine ⟨fun t => ?_, by simpa using h.length, fun i hi hr => ?_, fun i hr => ?_⟩
      · rw [h.known, List.mem_append, List.mem_singleton]
        constructor
        · exact fun ⟨h1, h2⟩ => ⟨h1, .inl h2⟩
        · rintro ⟨h1, h2 | rfl⟩
          · exact ⟨h1, h2⟩
          · exact ⟨h1, hmem⟩
      · rcases (hrep i).mp hr with hr' | ⟨rfl, -⟩
        · by_cases heq : seen.length = i
          · simp [heq, h.length, hi]
          · rw [List.getElem?_set_ne heq, h.repeated i hi hr']
        · simp [h.length, hi]
      · have hlen : seen.length ≠ i := fun heq => hr ((hrep i).mpr (.inr ⟨heq.symm, hne, hmem⟩))
        rw [List.getElem?_set_ne hlen]
        exact h.kept i fun hr' => hr ((hrep i).mpr (.inl hr'))
    next hnew =>
      have hnot : txID ∉ seen := fun hmem => hnew ((h.known txID).mpr ⟨hne, hmem⟩)
      have hrep' : ∀ i, Repeats (seen ++ [txID]) i ↔ Repeats seen i := by
        intro i
        simp [hrep, hnot]
      refine ⟨fun t => ?_, h.length, fun i hi hr => h.repeated i hi ((hrep' i).mp hr),
        fun i hr => h.kept i (mt (hrep' i).mpr hr)⟩
      rw [List.mem_cons, h.known, List.mem_append, List.mem_singleton]
      constructor
      · rintro (rfl | ⟨h1, h2⟩)
        · exact ⟨hne, .inr rfl⟩
        · exact ⟨h1, .inl h2⟩
      · rintro ⟨h1, h2 | rfl⟩
        · exact .inr ⟨h1, h2⟩
        · exact .inl rfl

/-- `markDuplicateTxIDs` changes the flags of the repeated IDs and no other. -/
theorem marked_markDuplicateTxIDs (txIDs : List TxID) :
    Marked flags txIDs (forIdx markDuplicateTxID ⟨[], flags⟩ txIDs) := by
  refine forIdx_invariant ?_ (fun seen a m => marked_step flags seen a m) txIDs
  exact ⟨fun t => by simp, rfl, fun i _ hr => absurd hr.lt_length (by simp), fun i _ => rfl⟩

@[simp] theorem length_markDuplicateTxIDs (txIDs : List TxID) :
    (markDuplicateTxIDs flags txIDs).length = flags.length :=
  (marked_markDuplicateTxIDs flags txIDs).length

theorem getElem?_markDuplicateTxIDs_of_repeats {flags : ValidationFlags}
    {i : Nat} (hlen : txIDs.length = flags.length) (h : Repeats txIDs i) :
    (markDuplicateTxIDs flags txIDs)[i]? = some duplicateTxid :=
  (marked_markDuplicateTxIDs flags txIDs).repeated i (hlen ▸ h.lt_length) h

theorem getElem?_markDuplicateTxIDs_of_not {flags : ValidationFlags} {i : Nat}
    (h : ¬ Repeats txIDs i) : (markDuplicateTxIDs flags txIDs)[i]? = flags[i]? :=
  (marked_markDuplicateTxIDs flags txIDs).kept i h

/-! ## The state -/

/-- `txResults`. -/
structure TxResults where
  blockNumber : UInt64
  flags : ValidationFlags
  txIDs : List TxID
  /-- One ID for each flag. -/
  sized : txIDs.length = flags.length
  /-- No ID is recorded without a flag. -/
  recorded : ∀ i : Nat, flags[i]? = some notValidated → txIDs[i]? = some []
  /-- A repeated ID is flagged. -/
  marked : ∀ i, Repeats txIDs i → flags[i]? = some duplicateTxid

theorem not_repeats_replicate_nil (n i : Nat) : ¬ Repeats (List.replicate n ([] : TxID)) i := by
  rintro ⟨txID, htx, hne, -⟩
  obtain ⟨_, rfl⟩ := List.getElem?_eq_some_iff.mp htx
  simp at hne

/-- `newTxResults`: the flags of the block are copied, and no ID is known yet. The Go code
indexes the transaction filter at every transaction; `none` is its panic on a filter that is
too short. -/
def newTxResults (block : Block) : Option TxResults :=
  if h : block.data.length ≤ block.filter.length then
    some {
      blockNumber := block.number
      flags := block.filter.take block.data.length
      txIDs := List.replicate block.data.length []
      sized := by simp [h]
      recorded := fun i hi => by
        have hlt := (List.getElem?_eq_some_iff.mp hi).1
        simp only [List.length_take] at hlt
        rw [List.getElem?_replicate_of_lt (by omega)]
      marked := fun i hr => absurd hr (not_repeats_replicate_nil _ i) }
  else none

/-- `txResults.AllValidated`. -/
def TxResults.allValidated (f : TxResults) : Bool := f.flags.all fun flag => flag ≠ notValidated

/-- `UnvalidatedMap`: the indexes of the transactions that are not validated yet. -/
def TxResults.unvalidatedMap (f : TxResults) : List Nat :=
  (List.range f.flags.length).filter fun i => f.flags[i]? = some notValidated

/-! ## Merge -/

/-- The state of the loop of `Merge`. -/
structure Merging where
  flags : ValidationFlags
  txIDs : List TxID

/-- The body of the loop in `Merge`: a flag that is given and not set yet is set,
together with the ID. -/
def mergeFlag (txIDs : List TxID) (m : Merging) (i : Nat) (flag : Code) : Merging :=
  if flag = notValidated then m
  else if m.flags[i]? = some notValidated then
    ⟨m.flags.set i flag, m.txIDs.set i (txIDs[i]?.getD [])⟩
  else m

def mergeLoop (f : TxResults) (flags : ValidationFlags) (txIDs : List TxID) : Merging :=
  forIdx (mergeFlag txIDs) ⟨f.flags, f.txIDs⟩ flags

/-- What the loop of `Merge` has done after the flags `seen`. -/
structure LoopDone (f : TxResults) (txIDs : List TxID) (seen : ValidationFlags) (m : Merging) :
    Prop where
  lengths : m.txIDs.length = m.flags.length ∧ m.flags.length = f.flags.length
  flagAt : ∀ i : Nat, m.flags[i]? =
    if f.flags[i]? = some notValidated then some (seen[i]?.getD notValidated) else f.flags[i]?
  txIDAt : ∀ i : Nat, m.txIDs[i]? =
    if f.flags[i]? = some notValidated ∧ seen[i]?.getD notValidated ≠ notValidated then
      some (txIDs[i]?.getD [])
    else f.txIDs[i]?

theorem loopDone_step (f : TxResults) (txIDs : List TxID) (seen : ValidationFlags) (flag : Code)
    (m : Merging) (h : LoopDone f txIDs seen m) :
    LoopDone f txIDs (seen ++ [flag]) (mergeFlag txIDs m seen.length flag) := by
  -- away from the index of the round, nothing changes on either side
  have hother : ∀ i, i ≠ seen.length → (seen ++ [flag])[i]? = seen[i]? := by
    intro i hi
    rcases Nat.lt_or_gt_of_ne hi with hlt | hgt
    · exact List.getElem?_append_left hlt
    · rw [List.getElem?_eq_none (by simp; omega), List.getElem?_eq_none (by omega)]
  have hnone : seen[seen.length]? = none := by simp
  have hflag := h.flagAt seen.length
  have htx := h.txIDAt seen.length
  simp only [hnone, Option.getD_none] at hflag htx
  have hcur : m.flags[seen.length]? = some notValidated ↔
      f.flags[seen.length]? = some notValidated := by
    rw [hflag]
    split <;> simp_all
  unfold mergeFlag
  split
  next hskip =>
    refine ⟨h.lengths, fun i => ?_, fun i => ?_⟩
    · by_cases hi : i = seen.length
      · subst hi
        simp [hflag, hskip]
      · rw [hother i hi, h.flagAt]
    · by_cases hi : i = seen.length
      · subst hi
        simp [htx, hskip]
      · rw [hother i hi, h.txIDAt]
  next hgiven =>
    split
    next hset =>
      have hlt : seen.length < m.flags.length := (List.getElem?_eq_some_iff.mp hset).1
      have hlt' : seen.length < m.txIDs.length := h.lengths.1 ▸ hlt
      refine ⟨by simpa using h.lengths, fun i => ?_, fun i => ?_⟩
      · by_cases hi : i = seen.length
        · subst hi
          simp [hcur.mp hset, hlt]
        · rw [hother i hi, List.getElem?_set_ne (Ne.symm hi), h.flagAt]
      · by_cases hi : i = seen.length
        · subst hi
          simp [hcur.mp hset, hlt', hgiven]
        · rw [hother i hi, List.getElem?_set_ne (Ne.symm hi), h.txIDAt]
    next hkeep =>
      have hf : f.flags[seen.length]? ≠ some notValidated := mt hcur.mpr hkeep
      refine ⟨h.lengths, fun i => ?_, fun i => ?_⟩
      · by_cases hi : i = seen.length
        · subst hi
          simp [hflag, hf]
        · rw [hother i hi, h.flagAt]
      · by_cases hi : i = seen.length
        · subst hi
          simp [htx, hf]
        · rw [hother i hi, h.txIDAt]

theorem loopDone_mergeLoop (f : TxResults) (flags : ValidationFlags) (txIDs : List TxID) :
    LoopDone f txIDs flags (mergeLoop f flags txIDs) := by
  refine forIdx_invariant ?_ (fun seen a m => loopDone_step f txIDs seen a m) flags
  refine ⟨⟨f.sized, rfl⟩, fun i => ?_, fun i => ?_⟩
  · by_cases h : f.flags[i]? = some notValidated <;> simp [h]
  · simp

/-- Where no flag is set after the loop and the marking, none was set before and none was
given, so no ID has been recorded. -/
theorem recorded_mergeLoop (f : TxResults) (flags : ValidationFlags) (txIDs : List TxID) {i : Nat}
    (h : (markDuplicateTxIDs (mergeLoop f flags txIDs).flags (mergeLoop f flags txIDs).txIDs)[i]? =
      some notValidated) : (mergeLoop f flags txIDs).txIDs[i]? = some [] := by
  have hdone := loopDone_mergeLoop f flags txIDs
  by_cases hr : Repeats (mergeLoop f flags txIDs).txIDs i
  · rw [getElem?_markDuplicateTxIDs_of_repeats hdone.lengths.1 hr] at h
    exact absurd h (by decide)
  · rw [getElem?_markDuplicateTxIDs_of_not hr, hdone.flagAt] at h
    by_cases hset : f.flags[i]? = some notValidated
    · rw [if_pos hset, Option.some.injEq] at h
      rw [hdone.txIDAt, if_neg fun hc => hc.2 h, f.recorded i hset]
    · rw [if_neg hset] at h
      exact absurd h hset

def TxResults.merged (f : TxResults) (flags : ValidationFlags) (txIDs : List TxID) : TxResults :=
  let m := mergeLoop f flags txIDs
  { blockNumber := f.blockNumber
    flags := markDuplicateTxIDs m.flags m.txIDs
    txIDs := m.txIDs
    sized := by simp [m, (loopDone_mergeLoop f flags txIDs).lengths.1]
    recorded := fun i hi => recorded_mergeLoop f flags txIDs hi
    marked := fun i hr => getElem?_markDuplicateTxIDs_of_repeats
      (loopDone_mergeLoop f flags txIDs).lengths.1 hr }

/-- `txResults.Merge`. -/
def TxResults.merge (f : TxResults) (flags : ValidationFlags) (txIDs : List TxID) :
    TxResults × Except String Bool :=
  if flags.length ≠ f.flags.length then
    (f, .error (s!"the length of the provided flags {flags.length} does not match " ++
      s!"the length of the existing flags {f.flags.length}"))
  else if txIDs.length ≠ f.txIDs.length then
    (f, .error (s!"the length of the provided Tx IDs {txIDs.length} does not match " ++
      s!"the length of the existing Tx IDs {f.txIDs.length}"))
  else
    let f' := f.merged flags txIDs
    (f', .ok f'.allValidated)

/-! ## Validation of a part of a block -/

/-- The error of a validation: `context.Canceled`, or another one with its text. -/
inductive ValidationError where
  | canceled
  | other (msg : String)
  deriving DecidableEq, Repr

structure BlockValidationResult where
  tIdx : Nat
  validationCode : Code
  txid : TxID
  err : Option ValidationError

/-- `TxFilter`. -/
abbrev TxFilter := Nat → Bool

/-- `getTransactionsToValidate`: the indexes that pass the filter and have no flag yet. -/
def getTransactionsToValidate (block : Block) (shouldValidate : TxFilter) : List Nat :=
  (List.range block.data.length).filter fun txIdx =>
    shouldValidate txIdx && block.filter[txIdx]? = some notValidated

/-- The state of the loop in `validateBlock`. `err` holds the error with the index of its
transaction. -/
structure BlockValidation where
  err : Option (ValidationError × Nat)
  txsfltr : ValidationFlags
  txidArray : List TxID

/-- The body of the loop in `validateBlock`. Of several errors, the one of the lowest
transaction is kept. -/
def handleResponse (st : BlockValidation) (res : BlockValidationResult) : BlockValidation :=
  match res.err with
  | some e =>
    match st.err with
    | none => { st with err := some (e, res.tIdx) }
    | some (_, errPos) =>
      if res.tIdx < errPos then { st with err := some (e, res.tIdx) } else st
  | none =>
    { st with
      txsfltr := st.txsfltr.set res.tIdx res.validationCode
      txidArray :=
        if res.validationCode = valid then st.txidArray.set res.tIdx res.txid
        else st.txidArray }

/-- `validateBlock`: the responses of the transactions that are validated, in the order in
which they come back. -/
def validateBlock (block : Block) (responses : List BlockValidationResult) : BlockValidation :=
  responses.foldl handleResponse
    ⟨none, newFlags block.data.length, List.replicate block.data.length []⟩

end FabricPeerExt.Validation
