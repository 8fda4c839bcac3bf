/-
FabricPeerExt.Validation.ValidatorTheorems — the committer against untrusted results.
-/
import FabricPeerExt.Validation.TxResultsTheorems
import FabricPeerExt.Validation.Validator

namespace FabricPeerExt.Validation

open Lib

/-! ## §1 `handleResults` -/

section
variable {p : PolicyEvaluator} {b : UInt64} {st : Waiting} {r : Results}

theorem handleResults_other (h : r.blockNumber ≠ b) :
    (handleResults p b st r).2 = .ok false ∧ (handleResults p b st r).1.txResults = st.txResults ∧
      ∀ k, (handleResults p b st r).1.cache.segment b k = st.cache.segment b k := by
  unfold handleResults
  split
  next => exact ⟨rfl, rfl, fun _ => rfl⟩
  next hlt =>
    split
    next =>
      refine ⟨rfl, rfl, fun k => ?_⟩
      rw [Cache.segment_add, if_neg fun hc => h hc.1.symm]
    next hgt =>
      exact absurd (UInt64.le_antisymm (UInt64.not_lt.mp hgt) (UInt64.not_lt.mp hlt)) h

theorem handleResults_err (hb : r.blockNumber = b) (h : r.err ≠ "") :
    handleResults p b st r =
      (st, if r.err = canceledText then .ok false else .error (errorf r.err)) := by
  unfold handleResults
  rw [if_neg (hb ▸ UInt64.lt_irrefl b), if_neg (hb ▸ UInt64.lt_irrefl b), if_pos h]
  split <;> rfl

/-- A result of the block without an error is added to its segment, which is then validated. -/
theorem handleResults_added (hb : r.blockNumber = b) (h : r.err = "") : handleResults p b st r =
    match p.validateResults (st.cache.segment b (hash r.txFlags) ++ [r]) with
    | .error _ => (⟨(st.cache.add r).1, st.txResults⟩, .ok false)
    | .ok () => (⟨(st.cache.add r).1, (st.txResults.merge r.txFlags r.txIDs).1⟩,
        (st.txResults.merge r.txFlags r.txIDs).2) := by
  subst hb
  rw [← Cache.snd_add]
  unfold handleResults
  exact (if_neg (UInt64.lt_irrefl _)).trans
    ((if_neg (UInt64.lt_irrefl _)).trans (if_neg (not_not.mpr h)))

/-- A segment passes because of one of its results. -/
theorem validateResults_ok {results : List Results} (h : p.validateResults results = .ok ()) :
    ∃ m ∈ results, m.isLocal = true ∨ m.mspID = p.selfMspID ∧ p.evaluate m = .ok () := by
  have hfirst : ∀ l : List Results, p.firstDecision l = some (.ok ()) →
      ∃ m ∈ l, m.isLocal = true ∨ m.mspID = p.selfMspID ∧ p.evaluate m = .ok () := by
    intro l
    induction l with
    | nil => exact fun h => nomatch h
    | cons m l ih =>
      intro hdec
      rw [PolicyEvaluator.firstDecision] at hdec
      split at hdec
      next hlocal => exact ⟨m, List.mem_cons_self .., .inl hlocal⟩
      next =>
        split at hdec
        next =>
          obtain ⟨m', hm', hor⟩ := ih hdec
          exact ⟨m', List.mem_cons_of_mem _ hm', hor⟩
        next hmsp =>
          exact ⟨m, List.mem_cons_self .., .inr ⟨not_not.mp hmsp, Option.some.inj hdec⟩⟩
  refine hfirst results ?_
  unfold PolicyEvaluator.validateResults at h
  cases hdec : p.firstDecision results with
  | none =>
    rw [hdec] at h
    cases h
  | some d =>
    rw [hdec] at h
    exact congrArg some h

end

/-! ## §2 Soundness -/

/-- A result taken from the channel: one that this peer computed, or one that another peer
sent, with whatever it wrote into the fields. -/
inductive Received where
  | own (blockNumber : UInt64) (v : BlockValidation)
  | remote (result : Results)

/-- What can happen to a waiting committer. -/
inductive Event where
  | wait
  | receive (e : Received)

section
variable (p : PolicyEvaluator) (endpoint : Bytes) (b : UInt64)

def Received.result : Received → Results
  | .own blockNumber v => ownResults p endpoint blockNumber v
  | .remote r => r

/-- The result comes from this peer, or from a peer of the same organisation and its own
signature satisfies the policy. -/
def Received.Genuine : Received → Prop
  | .own _ _ => True
  | .remote r => r.mspID = p.selfMspID ∧ p.evaluate r = .ok ()

def validationStep (st : Waiting) : Event → Waiting
  | .wait => st.start b
  | .receive e => (handleResults p b st (e.result p endpoint)).1

def receivedIn : List Event → List Received
  | [] => []
  | .wait :: evs => receivedIn evs
  | .receive e :: evs => e :: receivedIn evs

/-- Every flag that is set was carried by a genuine result for the block: it is the code of
that result, or has since been found to be a duplicate. -/
def Backed (received : List Received) (f : TxResults) : Prop :=
  ∀ (i : Nat) (flag : Code), f.flags[i]? = some flag → flag ≠ notValidated →
    ∃ e ∈ received, e.Genuine p ∧ (e.result p endpoint).blockNumber = b ∧
      ∃ code, (e.result p endpoint).txFlags[i]? = some code ∧ code ≠ notValidated ∧
        (flag = code ∨ flag = duplicateTxid)

/-- The condition on one event, in the state it happens in: a result of another peer does not
claim to be local, and a result for the block has the same flags as the results in its
segment, which have the same hash. -/
def Faithful (st : Waiting) : Event → Prop
  | .wait => True
  | .receive e =>
    (match e with
      | .own _ _ => True
      | .remote r => r.isLocal = false) ∧
    ((e.result p endpoint).blockNumber = b →
      ∀ m ∈ st.cache.segment b (hash (e.result p endpoint).txFlags),
        m.txFlags = (e.result p endpoint).txFlags)

instance decidableFaithful (st : Waiting) : ∀ ev, Decidable (Faithful p endpoint b st ev)
  | .wait => isTrue trivial
  | .receive (.own _ _) => inferInstanceAs (Decidable (_ ∧ (_ → _)))
  | .receive (.remote _) => inferInstanceAs (Decidable (_ ∧ (_ → _)))

/-- What holds in every state of such a run: the cached results of the block have been
received, those of other peers do not claim to be local, and the flags are backed. -/
structure Accounted (received : List Received) (st : Waiting) : Prop where
  cached : ∀ k, ∀ m ∈ st.cache.segment b k,
    ∃ e ∈ received, e.result p endpoint = m ∧ m.blockNumber = b ∧
      (m.isLocal = true → e.Genuine p)
  backed : Backed p endpoint b received st.txResults

variable {p endpoint b}

theorem receivedIn_append (evs evs' : List Event) :
    receivedIn (evs ++ evs') = receivedIn evs ++ receivedIn evs' := by
  induction evs with
  | nil => rfl
  | cons ev evs ih =>
    cases ev with
    | wait => exact ih
    | receive e => exact congrArg (e :: ·) ih

variable {received : List Received}

theorem Backed.mono {received' : List Received} {f : TxResults}
    (h : Backed p endpoint b received f) (hsub : ∀ e ∈ received, e ∈ received') :
    Backed p endpoint b received' f := by
  intro i flag hi hflag
  obtain ⟨e, he, hrest⟩ := h i flag hi hflag
  exact ⟨e, hsub e he, hrest⟩

/-- Merging flags that are backed keeps the state backed. -/
theorem Backed.merge {f : TxResults} {flags : ValidationFlags}
    (h : Backed p endpoint b received f) {e : Received} (he : e ∈ received) (hgen : e.Genuine p)
    (hblk : (e.result p endpoint).blockNumber = b) (hflags : (e.result p endpoint).txFlags = flags)
    (txIDs : List TxID) : Backed p endpoint b received (f.merge flags txIDs).1 := by
  by_cases hlen : flags.length ≠ f.flags.length ∨ txIDs.length ≠ f.txIDs.length
  · rw [(TxResults.merge_of_length_ne hlen).1]
    exact h
  intro i flag hi hflag
  by_cases hold : f.flags[i]? = some notValidated
  · -- the flag is set by this merge
    push Not at hlen
    rw [TxResults.merge_eq_merged hlen.1 hlen.2] at hi
    have hgiven : flags[i]?.getD notValidated ≠ notValidated := by
      intro hunset
      have htx : (f.merged flags txIDs).txIDs[i]? = some [] := by
        rw [TxResults.getElem?_txIDs_merged, if_neg fun hc => hc.2 hunset, f.recorded i hold]
      have hr : ¬ Repeats (f.merged flags txIDs).txIDs i := by
        rintro ⟨txID, hid, hne, -⟩
        exact hne (Option.some.inj (hid.symm.trans htx))
      rw [TxResults.getElem?_merged_of_not hr, if_pos hold, hunset] at hi
      exact hflag (Option.some.inj hi).symm
    obtain ⟨code, hcode⟩ : ∃ code, flags[i]? = some code := by
      cases hc : flags[i]? with
      | none => exact absurd (by rw [hc]; rfl) hgiven
      | some code => exact ⟨code, rfl⟩
    rw [hcode, Option.getD_some] at hgiven
    refine ⟨e, he, hgen, hblk, code, hflags ▸ hcode, hgiven, ?_⟩
    by_cases hr : Repeats (f.merged flags txIDs).txIDs i
    · rw [TxResults.getElem?_merged_of_repeats hr, Option.some.injEq] at hi
      exact .inr hi.symm
    · rw [TxResults.getElem?_merged_of_not hr, if_pos hold, hcode, Option.getD_some,
        Option.some.injEq] at hi
      exact .inl hi.symm
  · -- the flag was set before
    obtain ⟨old, hold'⟩ : ∃ old, f.flags[i]? = some old := by
      rcases TxResults.merge_keeps_set f flags txIDs hold with heq | hdup
      · exact ⟨flag, heq ▸ hi⟩
      · have hlt := (List.getElem?_eq_some_iff.mp hi).1
        push Not at hlen
        rw [TxResults.merge_eq_merged hlen.1 hlen.2] at hlt
        have hm := (loopDone_mergeLoop f flags txIDs).lengths
        have hlen' : (f.merged flags txIDs).flags.length = f.flags.length :=
          (length_markDuplicateTxIDs _ _).trans hm.2
        exact ⟨_, List.getElem?_eq_getElem (hlen' ▸ hlt)⟩
    have hne : old ≠ notValidated := fun heq => hold (heq ▸ hold')
    obtain ⟨e', he', hgen', hblk', code, hcode, hset, hor⟩ := h i old hold' hne
    refine ⟨e', he', hgen', hblk', code, hcode, hset, ?_⟩
    rcases TxResults.merge_keeps_set f flags txIDs hold with heq | hdup
    · rw [heq, hold', Option.some.injEq] at hi
      exact hi ▸ hor
    · rw [hdup, Option.some.injEq] at hi
      exact .inr hi.symm

theorem Accounted.start {st : Waiting} (h : Backed p endpoint b received st.txResults) :
    Accounted p endpoint b received (st.start b) :=
  ⟨fun k m hm => by
    rw [Waiting.start, Cache.segment_remove] at hm
    exact absurd hm (List.not_mem_nil), h⟩

/-- The step: a result that is faithful keeps the state accounted for. -/
theorem Accounted.receive {st : Waiting} (h : Accounted p endpoint b received st) {e : Received}
    (hok : Faithful p endpoint b st (.receive e)) :
    Accounted p endpoint b (received ++ [e])
      (handleResults p b st (e.result p endpoint)).1 := by
  obtain ⟨hlocal, hsame⟩ := hok
  have hsub : ∀ e' ∈ received, e' ∈ received ++ [e] := fun e' he' => List.mem_append_left _ he'
  have hmem : e ∈ received ++ [e] := by simp
  -- a received result that is local is this peer's own
  have hown : (e.result p endpoint).isLocal = true → e.Genuine p := by
    cases e with
    | own n v => exact fun _ => trivial
    | remote r => exact fun hl => absurd (hl.symm.trans hlocal) (by decide)
  have hkeep : ∀ k, ∀ m ∈ st.cache.segment b k,
      ∃ e' ∈ received ++ [e], e'.result p endpoint = m ∧ m.blockNumber = b ∧
        (m.isLocal = true → e'.Genuine p) := by
    intro k m hm
    obtain ⟨e', he', hrest⟩ := h.cached k m hm
    exact ⟨e', hsub e' he', hrest⟩
  have hbacked := h.backed.mono hsub
  generalize hr : e.result p endpoint = r at hsame hown ⊢
  by_cases hblk : r.blockNumber = b
  case neg =>
    obtain ⟨-, htx, hseg⟩ := @handleResults_other p b st r hblk
    exact ⟨fun k m hm => hkeep k m (hseg k ▸ hm), htx ▸ hbacked⟩
  by_cases herr : r.err = ""
  case neg =>
    rw [handleResults_err hblk herr]
    exact ⟨hkeep, hbacked⟩
  -- the result goes into its segment
  have hcached : ∀ k, ∀ m ∈ (st.cache.add r).1.segment b k,
      ∃ e' ∈ received ++ [e], e'.result p endpoint = m ∧ m.blockNumber = b ∧
        (m.isLocal = true → e'.Genuine p) := by
    intro k m hm
    rw [Cache.segment_add] at hm
    split at hm
    next =>
      rcases List.mem_append.mp hm with hm' | hm'
      · exact hkeep k m hm'
      · obtain rfl := List.mem_singleton.mp hm'
        exact ⟨e, hmem, hr, hblk, hown⟩
    next => exact hkeep k m hm
  cases hval : p.validateResults (st.cache.segment b (hash r.txFlags) ++ [r]) with
  | error msg =>
    rw [handleResults_added hblk herr, hval]
    exact ⟨hcached, hbacked⟩
  | ok u =>
    rw [handleResults_added hblk herr, hval]
    refine ⟨hcached, ?_⟩
    -- the result that lets the segment pass has the same flags
    obtain ⟨m, hm, hor⟩ := validateResults_ok hval
    obtain ⟨e', he', heq, hblk', hgen, hflags⟩ : ∃ e' ∈ received ++ [e],
        e'.result p endpoint = m ∧ m.blockNumber = b ∧ (m.isLocal = true → e'.Genuine p) ∧
          m.txFlags = r.txFlags := by
      rcases List.mem_append.mp hm with hm' | hm'
      · obtain ⟨e', he', heq, hb', hg⟩ := hkeep _ m hm'
        exact ⟨e', he', heq, hb', hg, hsame hblk m hm'⟩
      · obtain rfl := List.mem_singleton.mp hm'
        exact ⟨e, hmem, hr, hblk, hown, rfl⟩
    have hgen' : e'.Genuine p := by
      rcases hor with hl | hsig
      · exact hgen hl
      · cases e' with
        | own n v => exact trivial
        | remote r' =>
          obtain rfl : r' = m := heq
          exact hsig
    exact hbacked.merge he' hgen' (heq ▸ hblk') (by rw [heq, hflags]) r.txIDs

end

/-- No flag of a block is set before the first wait. -/
theorem unset_of_newTxResults {block : Block} {f : TxResults}
    (hf : newTxResults block.reset = some f) {i : Nat} {flag : Code}
    (hi : f.flags[i]? = some flag) : flag = notValidated := by
  unfold newTxResults at hf
  split at hf
  next =>
    obtain rfl := Option.some.inj hf
    simp only [Block.reset, newFlags, List.take_replicate] at hi
    obtain ⟨_, heq⟩ := List.getElem?_eq_some_iff.mp hi
    simpa using heq.symm
  next => cases hf

/-- **Soundness under the condition.** Whatever is cached from before, in every run of
`Validate` on a block (a wait begins, results are handled, a second wait may begin) in which
every event is faithful, every flag that is set is carried by a result this peer computed or
by one of its own organisation with a signature of its own that satisfies the policy. -/
theorem flags_backed_of_faithful (p : PolicyEvaluator) (endpoint : Bytes) (block : Block)
    (cache : Cache) (f : TxResults) (evs : List Event) (hf : newTxResults block.reset = some f)
    (h : Meets (validationStep p endpoint block.number) (Faithful p endpoint block.number)
      ⟨cache, f⟩ (.wait :: evs)) :
    Backed p endpoint block.number (receivedIn evs)
      (run (validationStep p endpoint block.number) ⟨cache, f⟩ (.wait :: evs)).txResults := by
  have hstart : Accounted p endpoint block.number [] ((Waiting.mk cache f).start block.number) :=
    .start fun i flag hi hflag => absurd (unset_of_newTxResults hf hi) hflag
  have hrun : Accounted p endpoint block.number (receivedIn evs)
      (run (validationStep p endpoint block.number)
        ((Waiting.mk cache f).start block.number) evs) := by
    refine run_induction (P := fun evs st => Accounted p endpoint block.number (receivedIn evs) st)
      hstart (fun evs ev _ hok hacc => ?_) h.2
    rw [receivedIn_append]
    cases ev with
    | wait =>
      rw [receivedIn, receivedIn, List.append_nil]
      exact .start hacc.backed
    | receive e => exact hacc.receive hok
  exact hrun.backed

def strictPolicy : PolicyEvaluator where
  channelID := "testchannel"
  selfMspID := [79, 114, 103, 49]
  getPolicyValidator := .ok fun _ => .error "signature set did not satisfy policy"

/-- An unsigned result of another organisation for a block of one transaction, which says of
itself that it is local if `claim` is set. -/
def unsignedResult (claim : Bool) : Results where
  blockNumber := 1000
  txFlags := [valid]
  txIDs := [[1]]
  err := ""
  endpoint := [112, 50]
  isLocal := claim
  mspID := [79, 114, 103, 50]
  signature := []
  identity := []

def oneTxResults : TxResults := (newTxResults (Block.reset ⟨1000, [[]], []⟩)).get (by decide)

/-- A remote result that does not claim to be local, then the result of this peer. -/
theorem flags_backed_of_own_result :
    (run (validationStep strictPolicy [] 1000) ⟨∅, oneTxResults⟩
      [.wait, .receive (.remote (unsignedResult false)),
        .receive (.own 1000 ⟨none, [valid], [[1]]⟩)]).txResults.flags = [valid] ∧
    Backed strictPolicy [] 1000
      [.remote (unsignedResult false), .own 1000 ⟨none, [valid], [[1]]⟩]
      (run (validationStep strictPolicy [] 1000) ⟨∅, oneTxResults⟩
        [.wait, .receive (.remote (unsignedResult false)),
          .receive (.own 1000 ⟨none, [valid], [[1]]⟩)]).txResults :=
  ⟨by decide +kernel, flags_backed_of_faithful strictPolicy [] ⟨1000, [[]], []⟩ ∅ oneTxResults
    [.receive (.remote (unsignedResult false)), .receive (.own 1000 ⟨none, [valid], [[1]]⟩)]
    rfl (by decide +kernel)⟩

/-- Anyone who says `Local` is believed: an unsigned result of another organisation is merged
although no signature satisfies the policy and this peer has computed nothing. -/
theorem forged_local_result_merged :
    newTxResults (Block.reset ⟨1000, [[]], []⟩) = some oneTxResults ∧
    (run (validationStep strictPolicy [] 1000) ⟨∅, oneTxResults⟩
      [.wait, .receive (.remote (unsignedResult true))]).txResults.flags = [valid] ∧
    ¬ Backed strictPolicy [] 1000 [.remote (unsignedResult true)]
      (run (validationStep strictPolicy [] 1000) ⟨∅, oneTxResults⟩
        [.wait, .receive (.remote (unsignedResult true))]).txResults := by
  refine ⟨rfl, by decide +kernel, fun hbacked => ?_⟩
  obtain ⟨e, he, hgen, -⟩ := hbacked 0 valid (by decide +kernel) (by decide)
  obtain rfl := List.mem_singleton.mp he
  exact absurd hgen.1 (by decide)

-- The second condition is needed too: the two lists of flags below have one hash, so the
-- second result, which is not signed, is merged because the first one is.
example :
    let p : PolicyEvaluator := ⟨"testchannel", [1], .ok fun set =>
      if set.all fun d => d.signature = [7] then .ok () else .error "invalid"⟩
    let signed : Results := ⟨1, [10, 254, 0, 254, 0, 254, 11, 0, 254], List.replicate 9 [], "", [],
      false, [1], [7], []⟩
    let unsigned : Results := ⟨1, [10, 254, 10, 254, 10, 10, 10, 0, 11], List.replicate 9 [], "",
      [], false, [2], [], []⟩
    ((newTxResults ⟨1, List.replicate 9 [], newFlags 9⟩).map fun f =>
      (run (validationStep p [] 1) ⟨∅, f⟩
        [.wait, .receive (.remote signed), .receive (.remote unsigned)]).txResults.flags) =
      some [10, 254, 0, 254, 0, 10, 11, 0, 11] := by
  decide +kernel

/-! ## §3 Liveness -/

section
variable (p : PolicyEvaluator) (endpoint : Bytes)

/-- `own` is what `validateRemaining` puts on the channel in the second wait: the results for
the transactions that have no flag after the first one. -/
def RemainingResults (truth : Truth) (block : Block) (f : TxResults) (own : Results) : Prop :=
  ∃ responses : List BlockValidationResult,
    responses.Perm ((getTransactionsToValidate block.reset
      fun i => i ∈ f.unvalidatedMap).map (respond truth)) ∧
    own = ownResults p endpoint block.number (validateBlock block.reset responses)

/-- The condition on a result `r` that is handled in the state `st` of the second wait, where
`own` are the committer's own results: all transactions are validated already, or the result
is for another block, or its validation was cancelled, or

* it carries no error,
* if its segment passes the policy, it has the lengths of the block, and
* if it comes first in the segment of `own`, and from this organisation, its signature
  satisfies the policy. -/
def Harmless (b : UInt64) (own : Results) (st : Waiting) (r : Results) : Prop :=
  st.txResults.allValidated = true ∨ r.blockNumber ≠ b ∨ r.err = canceledText ∨
    r.err = "" ∧
    (p.validateResults (st.cache.segment b (hash r.txFlags) ++ [r]) = .ok () →
      r.txFlags.length = st.txResults.flags.length ∧
      r.txIDs.length = st.txResults.txIDs.length) ∧
    (hash r.txFlags = hash own.txFlags →
      p.firstDecision (st.cache.segment b (hash own.txFlags)) = none →
      r.isLocal = false → r.mspID = p.selfMspID → p.evaluate r = .ok ())

/-- What holds in the second wait until the committer's own results are handled: they have
the lengths of the block and a flag for every transaction that has none, and what is in their
segment does not reject them. -/
structure Ready (b : UInt64) (own : Results) (st : Waiting) : Prop where
  lengths : own.txFlags.length = st.txResults.flags.length ∧
    own.txIDs.length = st.txResults.txIDs.length
  covers : ∀ i : Nat, st.txResults.flags[i]? = some notValidated →
    own.txFlags[i]?.getD notValidated ≠ notValidated
  passes : p.firstDecision (st.cache.segment b (hash own.txFlags)) = none ∨
    p.firstDecision (st.cache.segment b (hash own.txFlags)) = some (.ok ())

variable {p endpoint}

theorem firstDecision_append (l l' : List Results) :
    p.firstDecision (l ++ l') = (p.firstDecision l).or (p.firstDecision l') := by
  induction l with
  | nil => rfl
  | cons r l ih =>
    simp only [List.cons_append, PolicyEvaluator.firstDecision]
    split
    · rfl
    · split
      · exact ih
      · rfl

theorem length_flags_merge (f : TxResults) (flags : ValidationFlags) (txIDs : List TxID) :
    (f.merge flags txIDs).1.flags.length = f.flags.length := by
  by_cases hlen : flags.length ≠ f.flags.length ∨ txIDs.length ≠ f.txIDs.length
  · rw [(TxResults.merge_of_length_ne hlen).1]
  · push Not at hlen
    rw [TxResults.merge_eq_merged hlen.1 hlen.2]
    exact (length_markDuplicateTxIDs _ _).trans (loopDone_mergeLoop f flags txIDs).lengths.2

theorem unset_of_unset_merge {f : TxResults} {flags : ValidationFlags} {txIDs : List TxID} {i : Nat}
    (h : (f.merge flags txIDs).1.flags[i]? = some notValidated) :
    f.flags[i]? = some notValidated := by
  by_contra hset
  rcases TxResults.merge_keeps_set f flags txIDs hset with heq | hdup
  · exact hset (heq ▸ h)
  · exact absurd (hdup.symm.trans h) (by decide)

section
variable {b : UInt64} {own : Results} {st : Waiting}

section
variable {r : Results} (h : Ready p b own st)
  (hfirst : hash r.txFlags = hash own.txFlags →
    p.firstDecision (st.cache.segment b (hash own.txFlags)) = none →
    r.isLocal = false → r.mspID = p.selfMspID → p.evaluate r = .ok ())
include h hfirst

/-- The segment of the committer's own results after another result has gone into it. -/
theorem Ready.passes_add :
    p.firstDecision ((st.cache.add r).1.segment b (hash own.txFlags)) = none ∨
      p.firstDecision ((st.cache.add r).1.segment b (hash own.txFlags)) = some (.ok ()) := by
  rw [Cache.segment_add]
  split
  next hseg =>
    rw [firstDecision_append]
    rcases h.passes with hnone | hok
    · rw [hnone, Option.none_or, PolicyEvaluator.firstDecision]
      split
      next => exact .inr rfl
      next hlocal =>
        split
        next => exact .inl rfl
        next hmsp =>
          rw [hfirst hseg.2.symm hnone (Bool.eq_false_of_not_eq_true hlocal) (not_not.mp hmsp)]
          exact .inr rfl
    · rw [hok]
      exact .inr rfl
  next => exact h.passes

theorem Ready.add :
    Ready p b own ⟨(st.cache.add r).1, st.txResults⟩ :=
  ⟨h.lengths, h.covers, h.passes_add hfirst⟩

end

theorem Ready.merge (h : Ready p b own st) (flags : ValidationFlags) (txIDs : List TxID) :
    Ready p b own ⟨st.cache, (st.txResults.merge flags txIDs).1⟩ :=
  ⟨by simpa only [TxResults.sized, length_flags_merge] using h.lengths,
    fun i hi => h.covers i (unset_of_unset_merge hi), h.passes⟩

/-- The step: a harmless result ends the wait with every transaction validated, or the wait
goes on, still ready. -/
theorem Ready.handle (h : Ready p b own st) (hnot : st.txResults.allValidated = false)
    {r : Results} (hok : Harmless p b own st r) :
    ((handleResults p b st r).2 = .ok true ∧
      (handleResults p b st r).1.txResults.allValidated = true) ∨
    (handleResults p b st r).2 = .ok false ∧
      (handleResults p b st r).1.txResults.allValidated = false ∧
      Ready p b own (handleResults p b st r).1 := by
  by_cases hblk : r.blockNumber = b
  case neg =>
    obtain ⟨hres, htx, hseg⟩ := @handleResults_other p b st r hblk
    exact .inr ⟨hres, htx ▸ hnot, htx ▸ h.lengths, htx ▸ h.covers, hseg _ ▸ h.passes⟩
  rcases hok with hall | hother | hcan | ⟨herr, hlen, hfirst⟩
  · rw [hnot] at hall
    cases hall
  · exact absurd hblk hother
  · have hne : r.err ≠ "" := hcan ▸ by decide
    rw [handleResults_err hblk hne, if_pos hcan]
    exact .inr ⟨rfl, hnot, h⟩
  · cases hval : p.validateResults (st.cache.segment b (hash r.txFlags) ++ [r]) with
    | error e =>
      rw [handleResults_added hblk herr, hval]
      exact .inr ⟨rfl, hnot, h.add hfirst⟩
    | ok u =>
      obtain ⟨hflags, htx⟩ := hlen hval
      rw [handleResults_added hblk herr, hval]
      have hmerge := TxResults.merge_eq_merged hflags htx
      cases hall : (st.txResults.merged r.txFlags r.txIDs).allValidated with
      | true => exact .inl (by rw [hmerge]; exact ⟨congrArg _ hall, hall⟩)
      | false =>
        refine .inr ⟨by rw [hmerge, hall], by rw [hmerge, hall], ?_⟩
        exact (h.add hfirst).merge r.txFlags r.txIDs

/-- The committer's own results end the wait: every transaction has a flag. -/
theorem Ready.handle_own (h : Ready p b own st) (hblk : own.blockNumber = b) (herr : own.err = "")
    (hlocal : own.isLocal = true) :
    (handleResults p b st own).2 = .ok true ∧
      (handleResults p b st own).1.txResults.allValidated = true := by
  have hval : p.validateResults (st.cache.segment b (hash own.txFlags) ++ [own]) = .ok () := by
    have hown : p.firstDecision [own] = some (.ok ()) := by
      rw [PolicyEvaluator.firstDecision, if_pos hlocal]
    rw [PolicyEvaluator.validateResults, firstDecision_append, hown]
    rcases h.passes with hnone | hok
    · rw [hnone]
      rfl
    · rw [hok]
      rfl
  rw [handleResults_added hblk herr, hval, TxResults.merge_eq_merged h.lengths.1 h.lengths.2]
  have hall : (st.txResults.merged own.txFlags own.txIDs).allValidated = true := by
    rw [TxResults.allValidated_iff]
    intro i hi
    by_cases hr : Repeats (st.txResults.merged own.txFlags own.txIDs).txIDs i
    · rw [TxResults.getElem?_merged_of_repeats hr] at hi
      exact absurd hi (by decide)
    · rw [TxResults.getElem?_merged_of_not hr] at hi
      by_cases hset : st.txResults.flags[i]? = some notValidated
      · rw [if_pos hset, Option.some.injEq] at hi
        exact h.covers i hset hi
      · rw [if_neg hset] at hi
        exact hset hi
  exact ⟨congrArg _ hall, hall⟩

/-- The wait: if every result before the committer's own ones is harmless, the wait ends
without an error and with every transaction validated. -/
theorem Ready.waitLoop {pre post : List Results} (h : Ready p b own st)
    (hnot : st.txResults.allValidated = false) (hblk : own.blockNumber = b) (herr : own.err = "")
    (hlocal : own.isLocal = true)
    (hpre : Meets (fun st r => (handleResults p b st r).1) (Harmless p b own) st pre) :
    ∃ st', Validation.waitLoop p b st (pre ++ own :: post) = (st', .ok ()) ∧
      st'.txResults.allValidated = true := by
  induction pre generalizing st with
  | nil =>
    obtain ⟨hres, hall⟩ := h.handle_own hblk herr hlocal
    refine ⟨_, ?_, hall⟩
    rw [List.nil_append, Validation.waitLoop]
    split <;> simp_all
  | cons r pre ih =>
    rcases h.handle hnot hpre.1 with ⟨hres, hall⟩ | ⟨hres, hnot', hready⟩
    · refine ⟨_, ?_, hall⟩
      rw [List.cons_append, Validation.waitLoop]
      split <;> simp_all
    · obtain ⟨st', hloop, hall⟩ := ih hready hnot' hpre.2
      refine ⟨st', ?_, hall⟩
      rw [List.cons_append, Validation.waitLoop, ← hloop]
      split <;> simp_all

/-- A result changes the state of the block by a merge or not at all. -/
theorem txResults_handleResults (r : Results) :
    (handleResults p b st r).1.txResults = st.txResults ∨
      (handleResults p b st r).1.txResults = (st.txResults.merge r.txFlags r.txIDs).1 := by
  by_cases hblk : r.blockNumber = b
  case neg => exact .inl (@handleResults_other p b st r hblk).2.1
  by_cases herr : r.err = ""
  case neg => exact .inl (by rw [handleResults_err hblk herr])
  cases hval : p.validateResults (st.cache.segment b (hash r.txFlags) ++ [r]) with
  | error e => exact .inl (by rw [handleResults_added hblk herr, hval])
  | ok u => exact .inr (by rw [handleResults_added hblk herr, hval])

theorem length_flags_waitLoop (received : List Results) :
    (Validation.waitLoop p b st received).1.txResults.flags.length =
      st.txResults.flags.length := by
  induction received generalizing st with
  | nil => rfl
  | cons r received ih =>
    have hstep : (handleResults p b st r).1.txResults.flags.length =
        st.txResults.flags.length := by
      rcases txResults_handleResults (p := p) (b := b) r with h | h
      · rw [h]
      · rw [h, length_flags_merge]
    rw [Validation.waitLoop]
    split
    next heq => rw [← hstep, heq]
    next heq => rw [← hstep, heq]
    next heq => rw [ih, ← hstep, heq]

end

/-- The second wait begins ready: the committer validates exactly what has no flag. -/
theorem RemainingResults.ready {truth : Truth} {block : Block} {st : Waiting} {own : Results}
    (hlen : truth.length = block.data.length) (hcodes : ∀ t ∈ truth, t.1 ≠ notValidated)
    (hsize : st.txResults.flags.length = block.data.length)
    (h : RemainingResults p endpoint truth block st.txResults own) :
    Ready p block.number own (st.start block.number) ∧
      own.blockNumber = block.number ∧ own.err = "" ∧ own.isLocal = true := by
  obtain ⟨responses, hperm, rfl⟩ := h
  rw [perm_respond hperm, @validateBlock_respond truth block.reset hlen]
  refine ⟨⟨⟨?_, ?_⟩, fun i hi => ?_, .inl ?_⟩, rfl, rfl, rfl⟩
  · simp [ownResults, Waiting.start, hsize, hlen]
  · simp [ownResults, Waiting.start, givenIDs, st.txResults.sized, hsize, hlen]
  · have hlt : i < block.data.length := hsize ▸ (List.getElem?_eq_some_iff.mp hi).1
    have hmem : i ∈ responses.map BlockValidationResult.tIdx := by
      have hin : respond truth i ∈ responses := by
        refine hperm.mem_iff.mpr (List.mem_map_of_mem ?_)
        have hun : i ∈ st.txResults.unvalidatedMap := by
          simp only [TxResults.unvalidatedMap, List.mem_filter, List.mem_range,
            decide_eq_true_eq]
          exact ⟨hsize ▸ hlt, hi⟩
        simp [getTransactionsToValidate, Block.reset, newFlags, hlt, hun]
      exact List.mem_map.mpr ⟨_, hin, tIdx_respond truth i⟩
    obtain ⟨t, ht⟩ : ∃ t, truth[i]? = some t := ⟨_, List.getElem?_eq_getElem (hlen ▸ hlt)⟩
    simp only [ownResults, List.getElem?_map, getElem?_mask, ht, decide_eq_true hmem, if_true,
      Option.map_some, Option.getD_some]
    exact hcodes t (List.mem_of_getElem? ht)
  · rw [Waiting.start, Cache.segment_remove]
    rfl

end

/-- **Liveness under the condition.** A block that the committer can validate itself is
validated, whatever is cached, whatever is received in the first wait, and whatever is
received in the second wait after the committer's own results, if each result received in the
second wait before them is harmless: `Validate` returns no error, and every transaction has a
flag. -/
theorem validate_succeeds_of_harmless (p : PolicyEvaluator) (endpoint : Bytes) (truth : Truth)
    (block : Block) (cache : Cache) (f : TxResults) (first pre post : List Results) (own : Results)
    (hlen : truth.length = block.data.length) (hcodes : ∀ t ∈ truth, t.1 ≠ notValidated)
    (hf : newTxResults block.reset = some f)
    (hown : RemainingResults p endpoint truth block
      (afterFirstWait p block cache f first).txResults own)
    (hpre : Meets (fun st r => (handleResults p block.number st r).1)
      (Harmless p block.number own)
      ((afterFirstWait p block cache f first).start block.number) pre) :
    ∃ flags, validate p block cache first (pre ++ own :: post) = .ok flags ∧
      flags.length = block.data.length ∧ notValidated ∉ flags := by
  have hf' : f.flags.length = block.data.length := by
    unfold newTxResults at hf
    split at hf
    next =>
      obtain rfl := Option.some.inj hf
      simp [Block.reset, newFlags]
    next => cases hf
  have hsize : (afterFirstWait p block cache f first).txResults.flags.length =
      block.data.length := (length_flags_waitLoop first).trans hf'
  have hdone : ∀ g : TxResults, g.flags.length = block.data.length → g.allValidated = true →
      ∃ flags, checkAllValidated block g = .ok flags ∧ flags.length = block.data.length ∧
        notValidated ∉ flags := by
    intro g hg hall
    refine ⟨g.flags, if_pos hall, hg, fun hmem => ?_⟩
    obtain ⟨i, hi⟩ := List.mem_iff_getElem?.mp hmem
    exact TxResults.allValidated_iff.mp hall i hi
  obtain ⟨hready, hblk, herr, hlocal⟩ := hown.ready hlen hcodes hsize
  simp only [validate, hf]
  split
  next hnil =>
    refine hdone _ hsize (TxResults.allValidated_iff.mpr fun i hi => ?_)
    have hmem : i ∈ (afterFirstWait p block cache f first).txResults.unvalidatedMap := by
      simp only [TxResults.unvalidatedMap, List.mem_filter, List.mem_range, decide_eq_true_eq]
      exact ⟨(List.getElem?_eq_some_iff.mp hi).1, hi⟩
    rw [hnil] at hmem
    exact absurd hmem List.not_mem_nil
  next hrest =>
    have hnot : (afterFirstWait p block cache f first).txResults.allValidated = false := by
      refine Bool.eq_false_of_not_eq_true fun hall => hrest ?_
      rw [TxResults.unvalidatedMap, List.filter_eq_nil_iff]
      intro i _
      simpa using TxResults.allValidated_iff.mp hall i
    obtain ⟨st', hloop, hall⟩ := @Ready.waitLoop p block.number own _ pre post hready hnot hblk herr
      hlocal hpre
    have hsize' : st'.txResults.flags.length = block.data.length := by
      have hkeep := @length_flags_waitLoop p block.number
        ((afterFirstWait p block cache f first).start block.number) (pre ++ own :: post)
      rw [hloop] at hkeep
      exact hkeep.trans hsize
    simp only [waitForValidationResults, hloop]
    exact hdone _ hsize' hall

def ownResult : Results := ownResults strictPolicy [] 1000 ⟨none, [valid], [[1]]⟩

theorem remaining_ownResult :
    RemainingResults strictPolicy [] [(valid, [1])] ⟨1000, [[]], []⟩
      (afterFirstWait strictPolicy ⟨1000, [[]], []⟩ ∅ oneTxResults []).txResults ownResult :=
  ⟨[respond [(valid, [1])] 0], .refl _, rfl⟩

/-- An unsigned result of another organisation arrives before the committer's own ones. -/
theorem validate_succeeds_unsigned :
    ∃ flags, validate strictPolicy ⟨1000, [[]], []⟩ ∅ [] [unsignedResult false, ownResult] =
      .ok flags ∧ flags.length = 1 ∧ notValidated ∉ flags :=
  validate_succeeds_of_harmless strictPolicy [] [(valid, [1])] ⟨1000, [[]], []⟩ ∅ oneTxResults []
    [unsignedResult false] [] ownResult rfl (by decide) rfl remaining_ownResult
    ⟨.inr (.inr (.inr ⟨rfl, fun _ => ⟨rfl, rfl⟩, fun _ _ _ hmsp =>
      absurd hmsp (by decide : ¬ (unsignedResult false).mspID = strictPolicy.selfMspID)⟩)),
      trivial⟩

/-- One error in a result of another peer, of any organisation and without a signature, makes
`Validate` fail a block that the committer can validate itself. -/
theorem remote_error_fails_validate :
    RemainingResults strictPolicy [] [(valid, [1])] ⟨1000, [[]], []⟩
      (afterFirstWait strictPolicy ⟨1000, [[]], []⟩ ∅ oneTxResults []).txResults ownResult ∧
    validate strictPolicy ⟨1000, [[]], []⟩ ∅ [] [ownResult] = .ok [valid] ∧
    validate strictPolicy ⟨1000, [[]], []⟩ ∅ []
      [{ unsignedResult false with err := "validation failed" }, ownResult] =
      .error "validation failed" :=
  ⟨remaining_ownResult, by rfl, by rfl⟩

-- A result of the own organisation with an invalid signature that comes first in the segment
-- of the committer's own results keeps them from being merged.
example : validate strictPolicy ⟨1000, [[]], []⟩ ∅ []
    [{ unsignedResult false with mspID := strictPolicy.selfMspID }, ownResult] =
    .error "Not all transactions in block 1000 were validated" := by
  rfl

-- A result that is accepted and has a wrong number of IDs fails the block.
example : validate strictPolicy ⟨1000, [[]], []⟩ ∅ []
    [{ unsignedResult true with txIDs := [] }, ownResult] =
    .error ("the length of the provided Tx IDs 0 does not match " ++
      "the length of the existing Tx IDs 1") := by
  rfl

end FabricPeerExt.Validation
