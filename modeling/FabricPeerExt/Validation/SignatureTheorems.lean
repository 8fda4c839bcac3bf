/-
FabricPeerExt.Validation.SignatureTheorems — what the signature of a result binds.

The block number, the flags and the identity are signed, the transaction IDs that `Merge` reads
are not (`merge_determined_by_signature_iff`).
-/
import FabricPeerExt.Validation.Results
import FabricPeerExt.Validation.TxResultsTheorems

namespace FabricPeerExt.Validation

open Lib

/-- For one block and one identity, the signed bytes determine the flags. -/
theorem getDataToSign_flags {blockNum : UInt64} {flags flags' identity : Bytes}
    (h : getDataToSign blockNum flags identity = getDataToSign blockNum flags' identity) :
    flags = flags' := by
  simpa [getDataToSign] using h

/-- The IDs of two results with the same flags agree as far as `Merge` uses them: where a
flag is given, both slices of IDs have the right length or both have not, and if they have,
the two IDs are equal. At the last index the ID does not matter if there is no other
transaction, or if the flag is that of a duplicate anyway. -/
def IdsAgree (flags : ValidationFlags) (txIDs txIDs' : List TxID) : Prop :=
  ∀ i code, flags[i]? = some code → code ≠ notValidated →
    (txIDs.length = flags.length ↔ txIDs'.length = flags.length) ∧
    (txIDs.length = flags.length → txIDs[i]? = txIDs'[i]? ∨
      i + 1 = flags.length ∧ (i = 0 ∨ code = duplicateTxid))

/-! ## Agreement suffices -/

theorem repeats_congr {txIDs txIDs' : List TxID} {i : Nat}
    (h : ∀ j ≤ i, txIDs[j]? = txIDs'[j]?) : Repeats txIDs i ↔ Repeats txIDs' i := by
  have htake : txIDs.take i = txIDs'.take i := by
    refine List.ext_getElem? fun j => ?_
    simp only [List.getElem?_take]
    split
    next hj => exact h j (Nat.le_of_lt hj)
    next => rfl
  rw [Repeats, Repeats, h i (Nat.le_refl i), htake]

namespace TxResults

variable {f : TxResults} {flags : ValidationFlags}

/-- Results that give no flag change no flag: duplicates are marked already. -/
theorem flags_merged_of_unset (h : ∀ (i : Nat) code, flags[i]? = some code → code = notValidated)
    (txIDs : List TxID) : (f.merged flags txIDs).flags = f.flags := by
  have hunset : ∀ i : Nat, flags[i]?.getD notValidated = notValidated := by
    intro i
    cases hi : flags[i]? with
    | none => rfl
    | some code => exact h i code hi
  have htx : (f.merged flags txIDs).txIDs = f.txIDs := by
    refine List.ext_getElem? fun i => ?_
    rw [getElem?_txIDs_merged, if_neg fun hc => hc.2 (hunset i)]
  refine List.ext_getElem? fun i => ?_
  by_cases hr : Repeats (f.merged flags txIDs).txIDs i
  · rw [getElem?_merged_of_repeats hr, f.marked i (htx ▸ hr)]
  · rw [getElem?_merged_of_not hr, hunset]
    split
    next hnot => exact hnot.symm
    next => rfl

/-- Merging with IDs that agree gives the same flags. -/
theorem flags_merged_congr {txIDs txIDs' : List TxID} (hlen : flags.length = f.flags.length)
    (hfit : txIDs.length = flags.length) (h : IdsAgree flags txIDs txIDs') :
    (f.merged flags txIDs).flags = (f.merged flags txIDs').flags := by
  -- The recorded IDs are equal except where the ID does not matter.
  have htx : ∀ i : Nat,
      (f.merged flags txIDs).txIDs[i]? = (f.merged flags txIDs').txIDs[i]? ∨
      f.flags[i]? = some notValidated ∧ i + 1 = flags.length ∧
        (i = 0 ∨ flags[i]? = some duplicateTxid) := by
    intro i
    rw [getElem?_txIDs_merged, getElem?_txIDs_merged]
    by_cases hset : f.flags[i]? = some notValidated ∧ flags[i]?.getD notValidated ≠ notValidated
    · rw [if_pos hset, if_pos hset]
      cases hi : flags[i]? with
      | none => exact absurd (by rw [hi]; rfl) hset.2
      | some code =>
        have hcode : code ≠ notValidated := by simpa [hi] using hset.2
        rcases (h i code hi hcode).2 hfit with heq | ⟨hlast, hor⟩
        · exact .inl (by rw [heq])
        · exact .inr ⟨hset.1, hlast, hor.imp_right fun hdup => by rw [hdup]⟩
    · rw [if_neg hset, if_neg hset]
      exact .inl rfl
  refine List.ext_getElem? fun i => ?_
  rcases htx i with heq | ⟨hunset, hlast, hor⟩
  · -- below the last index, all recorded IDs up to here are equal
    have hrep : Repeats (f.merged flags txIDs).txIDs i ↔
        Repeats (f.merged flags txIDs').txIDs i := by
      by_cases hi : i < flags.length
      · refine repeats_congr fun j hj => ?_
        rcases Nat.eq_or_lt_of_le hj with rfl | hlt
        · exact heq
        · exact (htx j).resolve_right fun hc => by omega
      · have hout : ∀ ids, ¬ Repeats (f.merged flags ids).txIDs i := by
          intro ids hr
          have hb := hr.lt_length
          have hm := (loopDone_mergeLoop f flags ids).lengths
          have : (f.merged flags ids).txIDs.length = f.flags.length := hm.1.trans hm.2
          omega
        exact iff_of_false (hout _) (hout _)
    by_cases hr : Repeats (f.merged flags txIDs).txIDs i
    · rw [getElem?_merged_of_repeats hr, getElem?_merged_of_repeats (hrep.mp hr)]
    · rw [getElem?_merged_of_not hr, getElem?_merged_of_not (mt hrep.mpr hr)]
  · rcases hor with rfl | hdup
    · -- a first index is never a repetition
      have hfirst : ∀ ids, ¬ Repeats (f.merged flags ids).txIDs 0 := by
        rintro ids ⟨_, -, -, hmem⟩
        simp at hmem
      rw [getElem?_merged_of_not (hfirst _), getElem?_merged_of_not (hfirst _)]
    · -- the flag given here is `DUPLICATE_TXID`, repeated or not
      have hflag : ∀ ids, (f.merged flags ids).flags[i]? = some duplicateTxid := by
        intro ids
        by_cases hr : Repeats (f.merged flags ids).txIDs i
        · exact getElem?_merged_of_repeats hr
        · rw [getElem?_merged_of_not hr, if_pos hunset, hdup]
          rfl
      rw [hflag, hflag]

theorem flags_merge_congr {txIDs txIDs' : List TxID} (h : IdsAgree flags txIDs txIDs') :
    (f.merge flags txIDs).1.flags = (f.merge flags txIDs').1.flags := by
  by_cases hlen : flags.length = f.flags.length
  case neg =>
    rw [(merge_of_length_ne (.inl hlen)).1, (merge_of_length_ne (.inl hlen)).1]
  have hsized : f.txIDs.length = flags.length := f.sized.trans hlen.symm
  by_cases hgiven : ∃ (i : Nat) (code : Code), flags[i]? = some code ∧ code ≠ notValidated
  · obtain ⟨i, code, hi, hcode⟩ := hgiven
    have hiff := (h i code hi hcode).1
    by_cases hfit : txIDs.length = flags.length
    · rw [merge_eq_merged hlen (hfit.trans hsized.symm),
        merge_eq_merged hlen ((hiff.mp hfit).trans hsized.symm)]
      exact flags_merged_congr hlen hfit h
    · rw [(merge_of_length_ne (.inr fun hc => hfit (hc.trans hsized))).1,
        (merge_of_length_ne (.inr fun hc => hfit (hiff.mpr (hc.trans hsized)))).1]
  · -- no flag is given: neither merge changes a flag, whether it fails or not
    have hunset : ∀ (i : Nat) code, flags[i]? = some code → code = notValidated := by
      intro i code hi
      by_contra hcode
      exact hgiven ⟨i, code, hi, hcode⟩
    have hsame : ∀ ids, (f.merge flags ids).1.flags = f.flags := by
      intro ids
      by_cases hfit : ids.length = f.txIDs.length
      · rw [merge_eq_merged hlen hfit]
        exact flags_merged_of_unset hunset ids
      · rw [(merge_of_length_ne (.inr hfit)).1]
    rw [hsame, hsame]

end TxResults

/-! ## Agreement is necessary -/

theorem not_repeats_set_replicate (n j k : Nat) (a : TxID) :
    ¬ Repeats ((List.replicate n ([] : TxID)).set j a) k := by
  rintro ⟨x, hx, hne, hmem⟩
  -- `a` stands at one index only, and nothing else is an ID
  rw [List.getElem?_set] at hx
  obtain ⟨l, hl, heq⟩ := List.mem_take_iff_getElem.mp hmem
  have hlk : l < k := by omega
  split at hx
  next hjk =>
    rw [List.getElem_set_ne (by omega), List.getElem_replicate] at heq
    exact hne heq.symm
  next =>
    obtain ⟨_, rfl⟩ := List.getElem?_eq_some_iff.mp hx
    simp at hne

theorem getElem?_set_replicate_valid {n i k : Nat} :
    ((List.replicate n valid).set i notValidated)[k]? = some notValidated ↔ k = i ∧ i < n := by
  rw [List.getElem?_set]
  split
  next h =>
    subst h
    simp
  next h =>
    refine iff_of_false (fun hc => ?_) fun hc => h hc.1.symm
    obtain ⟨_, heq⟩ := List.getElem?_eq_some_iff.mp hc
    simp only [List.getElem_replicate] at heq
    exact notValidated_ne_valid heq.symm

/-- A state in which the transaction at `i` is the only one without a flag, and the one at
`j ≠ i` the only one with an ID. -/
def probe (n i j : Nat) (a : TxID) (h : j ≠ i) : TxResults where
  blockNumber := 0
  flags := (List.replicate n valid).set i notValidated
  txIDs := (List.replicate n []).set j a
  sized := by simp
  recorded := fun k hk => by
    obtain ⟨rfl, hlt⟩ := getElem?_set_replicate_valid.mp hk
    rw [List.getElem?_set_ne h, List.getElem?_replicate_of_lt hlt]
  marked := fun k hr => absurd hr (not_repeats_set_replicate n j k a)

section
variable {flags : ValidationFlags} {i : Nat} {code : Code} {txIDs : List TxID}

theorem probe_unset {n j k : Nat} {a : TxID} {h : j ≠ i} (hi : i < n) :
    (probe n i j a h).flags[k]? = some notValidated ↔ k = i :=
  getElem?_set_replicate_valid.trans (and_iff_left hi)

/-- A merge into the probe records one ID, that of the index without a flag. -/
theorem txIDs_probe (hi : flags[i]? = some code) (hcode : code ≠ notValidated) {b : TxID}
    (htx : txIDs[i]? = some b) (j : Nat) (a : TxID) (h : j ≠ i) :
    ((probe flags.length i j a h).merged flags txIDs).txIDs =
      ((List.replicate flags.length []).set j a).set i b := by
  have hlt : i < flags.length := (List.getElem?_eq_some_iff.mp hi).1
  refine List.ext_getElem? fun k => ?_
  rw [TxResults.getElem?_txIDs_merged]
  by_cases hk : k = i
  · subst hk
    rw [if_pos ⟨(probe_unset hlt).mpr rfl, by simpa [hi] using hcode⟩, htx,
      List.getElem?_set_self (by simpa using hlt)]
    rfl
  · rw [if_neg fun hc => hk ((probe_unset hlt).mp hc.1), List.getElem?_set_ne (Ne.symm hk)]
    rfl

theorem merge_probe (hfit : txIDs.length = flags.length) (j : Nat) (a : TxID) (h : j ≠ i) :
    ((probe flags.length i j a h).merge flags txIDs).1 =
      (probe flags.length i j a h).merged flags txIDs := by
  rw [TxResults.merge_eq_merged (by simp [probe]) (by simp [probe, hfit])]

section
variable (hi : flags[i]? = some code) (hcode : code ≠ notValidated)
include hi hcode

/-- With the ID `a` at a lower index, the index without a flag becomes a duplicate if the
result gives it the ID `a`, and only then. -/
theorem probe_below
    (hfit : txIDs.length = flags.length) {a b : TxID} (ha : a ≠ []) (htx : txIDs[i]? = some b)
    (hpos : 0 < i) :
    ((probe flags.length i 0 a (Nat.ne_of_lt hpos)).merge flags txIDs).1.flags[i]? =
      if b = a then some duplicateTxid else some code := by
  have hlt : i < flags.length := (List.getElem?_eq_some_iff.mp hi).1
  rw [merge_probe hfit]
  have hids := txIDs_probe hi hcode htx 0 a (Nat.ne_of_lt hpos)
  have hmem : ∀ x, x ≠ [] →
      (x ∈ (((List.replicate flags.length ([] : TxID)).set 0 a).set i b).take i ↔ x = a) := by
    intro x hx
    rw [List.take_set_of_le (Nat.le_refl i)]
    obtain ⟨m, hm⟩ : ∃ m, flags.length = m + 1 := ⟨flags.length - 1, by omega⟩
    obtain ⟨i', rfl⟩ : ∃ i', i = i' + 1 := ⟨i - 1, by omega⟩
    simp [hm, List.replicate_succ, hx]
  have hrep : Repeats ((probe flags.length i 0 a (Nat.ne_of_lt hpos)).merged flags txIDs).txIDs i ↔
      b = a := by
    rw [hids, Repeats]
    simp only [List.getElem?_set_self (show i < ((List.replicate flags.length ([] : TxID)).set 0
      a).length by simpa using hlt), Option.some.injEq, exists_eq_left']
    constructor
    · exact fun h => (hmem b h.1).mp h.2
    · rintro rfl
      exact ⟨ha, (hmem b ha).mpr rfl⟩
  split
  next heq => exact TxResults.getElem?_merged_of_repeats (hrep.mpr heq)
  next hne =>
    rw [TxResults.getElem?_merged_of_not (mt hrep.mp hne), if_pos ((probe_unset hlt).mpr rfl), hi]
    rfl

/-- With the ID `a` at the next index, that one becomes a duplicate if the result gives the
index without a flag the ID `a`, and only then. -/
theorem probe_above
    (hfit : txIDs.length = flags.length) {a b : TxID} (ha : a ≠ []) (htx : txIDs[i]? = some b)
    (hlt : i + 1 < flags.length) :
    ((probe flags.length i (i + 1) a i.succ_ne_self).merge flags txIDs).1.flags[i + 1]? =
      if b = a then some duplicateTxid else some valid := by
  have hlt' : i < flags.length := by omega
  rw [merge_probe hfit]
  have hids := txIDs_probe hi hcode htx (i + 1) a i.succ_ne_self
  have hat : (((List.replicate flags.length ([] : TxID)).set (i + 1) a).set i b)[i + 1]? =
      some a := by
    rw [List.getElem?_set_ne (by omega), List.getElem?_set_self (by simpa using hlt)]
  have hmem : a ∈ (((List.replicate flags.length ([] : TxID)).set (i + 1) a).set i b).take (i + 1)
      ↔ b = a := by
    rw [List.mem_take_iff_getElem]
    constructor
    · rintro ⟨l, hl, heq⟩
      have hl' : l ≤ i := by omega
      by_cases hli : i = l
      · subst hli
        simpa using heq
      · rw [List.getElem_set_ne hli, List.getElem_set_ne (by omega), List.getElem_replicate] at heq
        exact absurd heq.symm ha
    · rintro rfl
      exact ⟨i, by simp; omega, by simp⟩
  have hrep : Repeats
      ((probe flags.length i (i + 1) a i.succ_ne_self).merged flags txIDs).txIDs (i + 1) ↔
      b = a := by
    rw [hids, Repeats]
    simp only [hat, Option.some.injEq, exists_eq_left', hmem]
    exact and_iff_right ha
  split
  next heq => exact TxResults.getElem?_merged_of_repeats (hrep.mpr heq)
  next hne =>
    have hset : ¬ (probe flags.length i (i + 1) a i.succ_ne_self).flags[i + 1]? =
        some notValidated :=
      fun hc => absurd ((probe_unset hlt').mp hc) (by omega)
    rw [TxResults.getElem?_merged_of_not (mt hrep.mp hne), if_neg hset]
    simp [probe, hlt]

/-- A result whose IDs have the right length sets the flag that the probe lacks; one whose
IDs have not leaves it unset. -/
theorem probe_fit :
    ((probe flags.length i (i + 1) [] i.succ_ne_self).merge flags txIDs).1.flags[i]? =
        some notValidated ↔ txIDs.length ≠ flags.length := by
  have hlt : i < flags.length := (List.getElem?_eq_some_iff.mp hi).1
  by_cases hfit : txIDs.length = flags.length
  · refine iff_of_false ?_ (not_not.mpr hfit)
    rw [merge_probe hfit]
    by_cases hr :
        Repeats ((probe flags.length i (i + 1) [] i.succ_ne_self).merged flags txIDs).txIDs i
    · rw [TxResults.getElem?_merged_of_repeats hr]
      decide
    · rw [TxResults.getElem?_merged_of_not hr, if_pos ((probe_unset hlt).mpr rfl), hi]
      simpa using hcode
  · refine iff_of_true ?_ hfit
    have hne : txIDs.length ≠ (probe flags.length i (i + 1) [] i.succ_ne_self).txIDs.length := by
      simpa [probe] using hfit
    rw [(TxResults.merge_of_length_ne (.inr hne)).1]
    exact (probe_unset hlt).mpr rfl

/-- Two different IDs where one flag is given are told apart by some state, unless the index
is the last one and the flag does not depend on the ID. -/
theorem exists_probe {txIDs' : List TxID}
    (hfit : txIDs.length = flags.length) (hfit' : txIDs'.length = flags.length) {a b : TxID}
    (ha : a ≠ []) (hne : b ≠ a) (htx : txIDs[i]? = some a) (htx' : txIDs'[i]? = some b)
    (hlast : ¬ (i + 1 = flags.length ∧ (i = 0 ∨ code = duplicateTxid))) :
    ∃ f : TxResults, (f.merge flags txIDs).1.flags ≠ (f.merge flags txIDs').1.flags := by
  have hlt : i < flags.length := (List.getElem?_eq_some_iff.mp hi).1
  by_cases hnext : i + 1 < flags.length
  · refine ⟨probe flags.length i (i + 1) a i.succ_ne_self, fun heq => ?_⟩
    have hat := congrArg (·[i + 1]?) heq
    simp only [probe_above hi hcode hfit ha htx hnext, probe_above hi hcode hfit' ha htx' hnext,
      if_true, hne, if_false] at hat
    exact absurd hat (by decide)
  · have hnot : ¬ (i = 0 ∨ code = duplicateTxid) := fun hor => hlast ⟨by omega, hor⟩
    push Not at hnot
    have hpos : 0 < i := Nat.pos_of_ne_zero hnot.1
    refine ⟨probe flags.length i 0 a (Nat.ne_of_lt hpos), fun heq => ?_⟩
    have hat := congrArg (·[i]?) heq
    simp only [probe_below hi hcode hfit ha htx hpos, probe_below hi hcode hfit' ha htx' hpos,
      if_true, hne, if_false, Option.some.injEq] at hat
    exact hnot.2 hat.symm

end

end

theorem idsAgree_of_same_flags {flags : ValidationFlags} {txIDs txIDs' : List TxID}
    (h : ∀ f : TxResults, (f.merge flags txIDs).1.flags = (f.merge flags txIDs').1.flags) :
    IdsAgree flags txIDs txIDs' := by
  intro i code hi hcode
  have hiff : txIDs.length = flags.length ↔ txIDs'.length = flags.length := by
    have h1 := @probe_fit flags i code txIDs hi hcode
    have h2 := @probe_fit flags i code txIDs' hi hcode
    rw [h] at h1
    exact not_iff_not.mp (h1.symm.trans h2)
  refine ⟨hiff, fun hfit => ?_⟩
  have hfit' := hiff.mp hfit
  by_contra hcon
  push Not at hcon
  obtain ⟨hne, hlast⟩ := hcon
  have hlast' : ¬ (i + 1 = flags.length ∧ (i = 0 ∨ code = duplicateTxid)) := by
    rintro ⟨hl, hor⟩
    exact hor.elim (hlast hl).1 (hlast hl).2
  have hlt : i < flags.length := (List.getElem?_eq_some_iff.mp hi).1
  obtain ⟨a, ha⟩ : ∃ a, txIDs[i]? = some a := ⟨_, List.getElem?_eq_getElem (by omega)⟩
  obtain ⟨b, hb⟩ : ∃ b, txIDs'[i]? = some b := ⟨_, List.getElem?_eq_getElem (by omega)⟩
  have hab : a ≠ b := fun heq => hne (by rw [ha, hb, heq])
  -- one of the two IDs is there, and the probe holds that one
  by_cases hempty : a = []
  · obtain ⟨f, hf⟩ := exists_probe hi hcode hfit' hfit (fun hb' => hab (hempty.trans hb'.symm)) hab
      hb ha hlast'
    exact hf (h f).symm
  · obtain ⟨f, hf⟩ := exists_probe hi hcode hfit hfit' hempty hab.symm ha hb hlast'
    exact hf (h f)

/-- **What the signature binds.** Two results of one identity for one block with equal signed
bytes have the same effect on the flags of every state if, and only if, their transaction IDs
agree as far as `Merge` uses them. The IDs are not among the signed bytes. -/
theorem merge_determined_by_signature_iff (r r' : Results) (hblock : r.blockNumber = r'.blockNumber)
    (hidentity : r.identity = r'.identity)
    (hsigned : getDataToSign r.blockNumber r.txFlags r.identity =
      getDataToSign r'.blockNumber r'.txFlags r'.identity) :
    (∀ f : TxResults,
      (f.merge r.txFlags r.txIDs).1.flags = (f.merge r'.txFlags r'.txIDs).1.flags) ↔
    IdsAgree r.txFlags r.txIDs r'.txIDs := by
  rw [← hblock, ← hidentity] at hsigned
  rw [← getDataToSign_flags hsigned]
  exact ⟨idsAgree_of_same_flags, fun h f => TxResults.flags_merge_congr h⟩

/-- A signed result for a block of two transactions, with the IDs `txIDs`. -/
def signedResult (txFlags : ValidationFlags) (txIDs : List TxID) : Results where
  blockNumber := 1000
  txFlags := txFlags
  txIDs := txIDs
  err := ""
  endpoint := [112, 49]
  isLocal := false
  mspID := [79, 114, 103, 49]
  signature := [1, 2, 3]
  identity := [4, 5, 6]

/-- IDs of transactions for which no flag is given may be changed without effect. -/
theorem merge_determined_by_signature_unset :
    signedData (signedResult [valid, notValidated] [[1], [2]]) =
      signedData (signedResult [valid, notValidated] [[1], []]) ∧
    ∀ f : TxResults, (f.merge [valid, notValidated] [[1], [2]]).1.flags =
      (f.merge [valid, notValidated] [[1], []]).1.flags := by
  have hagree : IdsAgree [valid, notValidated] [[1], [2]] [[1], []] := by
    intro i code hi hcode
    match i with
    | 0 => exact ⟨Iff.rfl, fun _ => .inl rfl⟩
    | 1 => exact absurd (Option.some.inj hi).symm hcode
    | i + 2 => exact absurd hi (by simp)
  exact ⟨rfl, (merge_determined_by_signature_iff
    (signedResult [valid, notValidated] [[1], [2]])
    (signedResult [valid, notValidated] [[1], []]) rfl rfl rfl).mpr hagree⟩

/-- A man in the middle changes the second ID of a signed result to the first. The signed
bytes are the same, and the second transaction becomes a duplicate. -/
theorem duplicate_forged_under_signature :
    let sent := signedResult [valid, valid] [[1], [2]]
    let received := signedResult [valid, valid] [[1], [1]]
    received.blockNumber = sent.blockNumber ∧ received.identity = sent.identity ∧
    signedData received = signedData sent ∧
    ((newTxResults ⟨1000, [[], []], newFlags 2⟩).map fun f =>
      (f.merge sent.txFlags sent.txIDs).1.flags) = some [valid, valid] ∧
    ((newTxResults ⟨1000, [[], []], newFlags 2⟩).map fun f =>
      (f.merge received.txFlags received.txIDs).1.flags) = some [valid, duplicateTxid] := by
  decide +kernel

end FabricPeerExt.Validation
