/-
FabricPeerExt.Txn.CheckForCommit — whether a transaction is committed,
`pkg/txn/handler/checkforcommit.go`.

The service keeps one handler for all retries of a request, so `Handle` may be called more than
once. The flag is never reset, writes of metadata are not looked at, and the first entry for a
namespace decides whether all of it is ignored.
-/
import FabricPeerExt.Txn.ProprespValidator

namespace FabricPeerExt.Txn

open Lib
open PvtData (GoString Err liftErr wrapErr)

/-! ## §1 Model -/

/-- `CommitType`. -/
inductive CommitType where
  | commitOnWrite
  | commit
  | noCommit
  deriving DecidableEq, Repr

/-- `Namespace`. -/
structure Namespace where
  name : GoString
  collections : List GoString
  deriving DecidableEq

structure EndorsedPayload where
  payload : Option Bytes

structure TransactionProposalResponse where
  proposalResponse : Option EndorsedPayload

/-- The proposal responses to a request. -/
structure RequestContext where
  responses : List (Option TransactionProposalResponse)

/-- `CheckForCommitHandler`. -/
structure CheckForCommitHandler where
  rwSetIgnoreNameSpace : List Namespace
  commitType : CommitType
  shouldCommit : Bool

/-- `newCheckForCommitHandler`. -/
def newCheckForCommitHandler (ignoreNameSpaces : List Namespace) (commitType : CommitType) :
    CheckForCommitHandler := ⟨ignoreNameSpaces, commitType, false⟩

/-- What a call of `Handle` has done: the handler after it, whether the next handler was
called, and the error of the request context. -/
structure Handled where
  handler : CheckForCommitHandler
  nextCalled : Bool
  error : Option Err

/-- `ignoreCC`: the first entry for the chaincode decides. -/
def ignoreCC (namespaces : List Namespace) (ccName : GoString) : Bool :=
  match namespaces.find? fun ns => ns.name = ccName with
  | none => false
  | some ns => ns.collections.isEmpty

/-- `ignoreCollection`. -/
def ignoreCollection (namespaces : List Namespace) (ccName collName : GoString) : Bool :=
  namespaces.any fun ns => ns.name = ccName ∧ collName ∈ ns.collections

/-- `CheckForCommitHandler.hasWriteSet`. -/
def hasWriteSet (ignore : List Namespace) (txRWSet : TxRwSet) : Bool :=
  txRWSet.any fun ns => !ignoreCC ignore ns.nameSpace &&
    (ns.writes || ns.collHashedRwSets.any fun coll =>
      !ignoreCollection ignore ns.nameSpace coll.collectionName && coll.writes)

def firstPayload (responses : List (Option TransactionProposalResponse)) : Option Bytes :=
  match responses with
  | some ⟨some ⟨some payload⟩⟩ :: _ => some payload
  | _ => none

section
variable (protos : Protos)

/-- `CheckForCommitHandler.getChaincodeAction`. -/
def CheckForCommitHandler.getChaincodeAction (requestContext : RequestContext) :
    Except Err ChaincodeAction :=
  match firstPayload requestContext.responses with
  | none => .error (.plain "No proposal response payload")
  | some payload =>
    match wrapErr "Error unmarshalling to ProposalResponsePayload"
        (liftErr (protos.unmarshalProposalResponsePayload payload)) with
    | .error e => .error e
    | .ok extension => wrapErr "Error unmarshalling to ChaincodeAction"
        (liftErr (protos.unmarshalChaincodeAction extension))

def ChaincodeAction.hasEvent (action : ChaincodeAction) : Bool :=
  action.events.any fun events => !events.isEmpty

def CheckForCommitHandler.proceed (h : CheckForCommitHandler) : Handled :=
  ⟨h, h.shouldCommit, none⟩

/-- `CheckForCommitHandler.commitIfHasWriteSet`. -/
def CheckForCommitHandler.commitIfHasWriteSet (h : CheckForCommitHandler)
    (requestContext : RequestContext) : Handled :=
  match CheckForCommitHandler.getChaincodeAction protos requestContext with
  | .error e => ⟨h, false, some e⟩
  | .ok action =>
    if action.hasEvent then { h with shouldCommit := true }.proceed
    else match protos.txRwSetFromProtoBytes action.results with
      | .error e => ⟨h, false, some (.wrap "Error unmarshalling to txRWSet" (.plain e))⟩
      | .ok txRWSet =>
        if hasWriteSet h.rwSetIgnoreNameSpace txRWSet then { h with shouldCommit := true }.proceed
        else h.proceed

/-- `CheckForCommitHandler.Handle`. -/
def CheckForCommitHandler.handle (h : CheckForCommitHandler) (requestContext : RequestContext) :
    Handled :=
  match h.commitType with
  | .noCommit => ⟨h, false, none⟩
  | .commit => { h with shouldCommit := true }.proceed
  | .commitOnWrite => h.commitIfHasWriteSet protos requestContext

end

/-! ## §2 Effects -/

/-- The whole namespace is to be ignored: an entry for it names no collections. -/
def Ignored (ignore : List Namespace) (ccName : GoString) : Prop :=
  ∃ ns ∈ ignore, ns.name = ccName ∧ ns.collections = []

def CollectionIgnored (ignore : List Namespace) (ccName collName : GoString) : Prop :=
  ∃ ns ∈ ignore, ns.name = ccName ∧ collName ∈ ns.collections

/-- The read-write set has something of a kind, in a namespace that is not ignored and, for a
collection, in a collection that is not ignored. -/
def Somewhere (inPublic : NsRwSet → Bool) (inColl : CollHashedRwSet → Bool)
    (ignore : List Namespace) (set : TxRwSet) : Prop :=
  ∃ ns ∈ set, ¬ Ignored ignore ns.nameSpace ∧ (inPublic ns = true ∨
    ∃ coll ∈ ns.collHashedRwSets,
      ¬ CollectionIgnored ignore ns.nameSpace coll.collectionName ∧ inColl coll = true)

def Writes (ignore : List Namespace) (set : TxRwSet) : Prop :=
  Somewhere NsRwSet.writes CollHashedRwSet.writes ignore set

def MetadataWrites (ignore : List Namespace) (set : TxRwSet) : Prop :=
  Somewhere NsRwSet.metadataWrites CollHashedRwSet.metadataWrites ignore set

/-- The response carries a chaincode event, or an effect that is not ignored. -/
def Carries (protos : Protos) (ignore : List Namespace) (requestContext : RequestContext) :
    Prop :=
  ∃ action, CheckForCommitHandler.getChaincodeAction protos requestContext = .ok action ∧
    (action.hasEvent = true ∨ ∃ set, protos.txRwSetFromProtoBytes action.results = .ok set ∧
      (Writes ignore set ∨ MetadataWrites ignore set))

/-- A write to a namespace that is to be ignored, but not by the first entry for it. -/
def Slips (ignore : List Namespace) (set : TxRwSet) : Prop :=
  ∃ ns ∈ set, Ignored ignore ns.nameSpace ∧ ignoreCC ignore ns.nameSpace = false ∧
    (ns.writes = true ∨ ∃ coll ∈ ns.collHashedRwSets,
      ¬ CollectionIgnored ignore ns.nameSpace coll.collectionName ∧ coll.writes = true)

/-- What the code ignores is to be ignored. -/
theorem Ignored.of_ignoreCC {ignore : List Namespace} {ccName : GoString}
    (h : ignoreCC ignore ccName = true) : Ignored ignore ccName := by
  rw [ignoreCC] at h
  split at h
  next => cases h
  next ns hfind =>
    refine ⟨ns, List.mem_of_find?_eq_some hfind, ?_, List.isEmpty_iff.mp h⟩
    simpa using List.find?_some hfind

/-- The code finds the writes that are not ignored, and those that slip through. -/
theorem hasWriteSet_iff {ignore : List Namespace} {set : TxRwSet} :
    hasWriteSet ignore set = true ↔ Writes ignore set ∨ Slips ignore set := by
  have hcoll : ∀ ns : NsRwSet, (ns.writes || ns.collHashedRwSets.any fun coll =>
      !ignoreCollection ignore ns.nameSpace coll.collectionName && coll.writes) = true ↔
      (ns.writes = true ∨ ∃ coll ∈ ns.collHashedRwSets,
        ¬ CollectionIgnored ignore ns.nameSpace coll.collectionName ∧ coll.writes = true) := by
    intro ns
    simp [ignoreCollection, CollectionIgnored]
  rw [hasWriteSet, List.any_eq_true]
  simp only [Bool.and_eq_true, hcoll, Bool.not_eq_true']
  constructor
  · rintro ⟨ns, hns, hcc, hw⟩
    by_cases hi : Ignored ignore ns.nameSpace
    · exact .inr ⟨ns, hns, hi, hcc, hw⟩
    · exact .inl ⟨ns, hns, hi, hw⟩
  · rintro (⟨ns, hns, hi, hw⟩ | ⟨ns, hns, -, hcc, hw⟩)
    · exact ⟨ns, hns, Bool.eq_false_iff.mpr fun h => hi (.of_ignoreCC h), hw⟩
    · exact ⟨ns, hns, hcc, hw⟩

/-! ## §3 Decisions -/

def CheckForCommitHandler.next (protos : Protos) (h : CheckForCommitHandler)
    (requestContext : RequestContext) : CheckForCommitHandler :=
  (h.handle protos requestContext).handler

/-- The call decides by its own response. -/
structure Decides (protos : Protos) (h : CheckForCommitHandler) (requestContext : RequestContext) :
    Prop where
  nextCalled : (h.handle protos requestContext).nextCalled = true ↔
    Carries protos h.rwSetIgnoreNameSpace requestContext
  shouldCommit : (h.handle protos requestContext).handler.shouldCommit = true ↔
    Carries protos h.rwSetIgnoreNameSpace requestContext

/-- The flag was set by an earlier call only if this response carries something; and if it
was not, a read-write set without an event and without writes that are not ignored has
writes of metadata that are not ignored exactly if a write slips through. -/
structure Settled (protos : Protos) (h : CheckForCommitHandler) (requestContext : RequestContext) :
    Prop where
  flag : h.shouldCommit = true → Carries protos h.rwSetIgnoreNameSpace requestContext
  writes : h.shouldCommit = false → ∀ action set,
    CheckForCommitHandler.getChaincodeAction protos requestContext = .ok action →
    protos.txRwSetFromProtoBytes action.results = .ok set →
    action.hasEvent = true ∨ Writes h.rwSetIgnoreNameSpace set ∨
      (MetadataWrites h.rwSetIgnoreNameSpace set ↔ Slips h.rwSetIgnoreNameSpace set)

section
variable (protos : Protos)

/-- What a call finds in the response, apart from the flag: an error, or whether there is an
event or a write that the code does not ignore. -/
def inspect (ignore : List Namespace) (requestContext : RequestContext) : Except Err Bool :=
  match CheckForCommitHandler.getChaincodeAction protos requestContext with
  | .error e => .error e
  | .ok action =>
    if action.hasEvent then .ok true
    else match protos.txRwSetFromProtoBytes action.results with
      | .error e => .error (.wrap "Error unmarshalling to txRWSet" (.plain e))
      | .ok txRWSet => .ok (hasWriteSet ignore txRWSet)

/-- A call adds what it finds to the flag, and goes by the flag. -/
theorem handle_commitOnWrite (ignore : List Namespace) (flag : Bool)
    (requestContext : RequestContext) :
    CheckForCommitHandler.handle protos ⟨ignore, .commitOnWrite, flag⟩ requestContext =
      match inspect protos ignore requestContext with
      | .error e => ⟨⟨ignore, .commitOnWrite, flag⟩, false, some e⟩
      | .ok found => ⟨⟨ignore, .commitOnWrite, flag || found⟩, flag || found, none⟩ := by
  rw [CheckForCommitHandler.handle, CheckForCommitHandler.commitIfHasWriteSet.eq_def, inspect]
  cases CheckForCommitHandler.getChaincodeAction protos requestContext with
  | error e => rfl
  | ok action =>
    cases hev : action.hasEvent with
    | true => simp [hev, CheckForCommitHandler.proceed]
    | false =>
      cases hset : protos.txRwSetFromProtoBytes action.results with
      | error e => simp [hev, hset]
      | ok set =>
        cases hw : hasWriteSet ignore set with
        | true => simp [hev, hset, hw, CheckForCommitHandler.proceed]
        | false => simp [hev, hset, hw, CheckForCommitHandler.proceed]

variable {protos} {ignore : List Namespace} {requestContext : RequestContext}

/-- A response that cannot be read carries nothing. -/
theorem not_carries_of_inspect_error {e : Err}
    (h : inspect protos ignore requestContext = .error e) :
    ¬ Carries protos ignore requestContext := by
  intro hc
  obtain ⟨action, ha, hor⟩ := hc
  rw [inspect, ha] at h
  rcases hor with hev | ⟨set, hset, -⟩
  · simp [hev] at h
  · cases hev : action.hasEvent <;> simp [hev, hset] at h

/-- What the call finds is what the response carries, unless it only has writes of metadata
or writes that slip through. -/
theorem found_iff_carries {found : Bool} (h : inspect protos ignore requestContext = .ok found) :
    (found = true ↔ Carries protos ignore requestContext) ↔
      ∀ action set, CheckForCommitHandler.getChaincodeAction protos requestContext = .ok action →
        protos.txRwSetFromProtoBytes action.results = .ok set →
        action.hasEvent = true ∨ Writes ignore set ∨
          (MetadataWrites ignore set ↔ Slips ignore set) := by
  cases ha : CheckForCommitHandler.getChaincodeAction protos requestContext with
  | error e => simp [inspect, ha] at h
  | ok action =>
    cases hev : action.hasEvent with
    | true =>
      have hfound : true = found := by simpa [inspect, ha, hev] using h
      refine iff_of_true (iff_of_true hfound.symm ⟨action, ha, .inl hev⟩) ?_
      intro action' set ha' _
      rw [← Except.ok.inj ha']
      exact .inl hev
    | false =>
      cases hset : protos.txRwSetFromProtoBytes action.results with
      | error e => simp [inspect, ha, hev, hset] at h
      | ok set =>
        have hfound : hasWriteSet ignore set = found := by
          simpa [inspect, ha, hev, hset] using h
        have hcarries : Carries protos ignore requestContext ↔
            Writes ignore set ∨ MetadataWrites ignore set := by
          simp [Carries, ha, hev, hset]
        rw [← hfound, hasWriteSet_iff, hcarries]
        constructor
        · intro hiff action' set' ha' hset'
          rw [← Except.ok.inj ha', hset] at hset'
          rw [← Except.ok.inj hset']
          by_cases hw : Writes ignore set
          · exact .inr (.inl hw)
          · rw [or_iff_right hw, or_iff_right hw] at hiff
            exact .inr (.inr hiff.symm)
        · intro hall
          have hor := (hall action set rfl hset).resolve_left (by simp [hev])
          exact or_congr_right' fun hw => (hor.resolve_left hw).symm

/-- The step: when a single call decides right. -/
theorem decides_iff {h : CheckForCommitHandler} (hct : h.commitType = .commitOnWrite) :
    Decides protos h requestContext ↔ Settled protos h requestContext := by
  obtain ⟨ignore, commitType, flag⟩ := h
  obtain rfl : commitType = .commitOnWrite := hct
  have hhandle := handle_commitOnWrite protos ignore flag requestContext
  cases hi : inspect protos ignore requestContext with
  | error e =>
    -- Nothing is carried and the next handler is not called, but the flag stays.
    have hcarries := not_carries_of_inspect_error hi
    rw [hi] at hhandle
    constructor
    · intro hd
      have hflag := hd.shouldCommit
      rw [hhandle] at hflag
      refine ⟨hflag.mp, fun _ action set ha hset => ?_⟩
      rw [inspect, ha] at hi
      cases hev : action.hasEvent <;> simp [hev, hset] at hi
    · intro hs
      refine ⟨?_, ?_⟩
      · rw [hhandle]
        exact iff_of_false Bool.false_ne_true hcarries
      · rw [hhandle]
        exact iff_of_false (fun hflag => hcarries (hs.flag hflag)) hcarries
  | ok found =>
    rw [hi] at hhandle
    have hdecides : Decides protos ⟨ignore, .commitOnWrite, flag⟩ requestContext ↔
        ((flag || found) = true ↔ Carries protos ignore requestContext) := by
      constructor
      · intro hd
        have hflag := hd.shouldCommit
        rwa [hhandle] at hflag
      · intro hd
        refine ⟨?_, ?_⟩
        · rw [hhandle]; exact hd
        · rw [hhandle]; exact hd
    rw [hdecides]
    cases flag with
    | true =>
      constructor
      · intro hd
        exact ⟨fun _ => hd.mp rfl, fun hf => by cases hf⟩
      · intro hs
        exact iff_of_true rfl (hs.flag rfl)
    | false =>
      rw [Bool.false_or, found_iff_carries hi]
      constructor
      · intro hw
        exact ⟨(Bool.noConfusion ·), fun _ => hw⟩
      · intro hs
        exact hs.writes rfl

theorem commitType_next {h : CheckForCommitHandler} (hct : h.commitType = .commitOnWrite) :
    (h.next protos requestContext).commitType = .commitOnWrite := by
  obtain ⟨ignore, commitType, flag⟩ := h
  obtain rfl : commitType = .commitOnWrite := hct
  rw [CheckForCommitHandler.next, handle_commitOnWrite]
  cases inspect protos ignore requestContext <;> rfl

end

/-- All calls of a sequence decide right exactly if each of them is settled when it comes. -/
theorem decides_all_iff (protos : Protos) (ignore : List Namespace)
    (calls : List RequestContext) :
    Meets (CheckForCommitHandler.next protos) (Decides protos)
        (newCheckForCommitHandler ignore .commitOnWrite) calls ↔
      Meets (CheckForCommitHandler.next protos) (Settled protos)
        (newCheckForCommitHandler ignore .commitOnWrite) calls := by
  suffices hgen : ∀ (calls : List RequestContext) (h : CheckForCommitHandler),
      h.commitType = .commitOnWrite →
      (Meets (CheckForCommitHandler.next protos) (Decides protos) h calls ↔
        Meets (CheckForCommitHandler.next protos) (Settled protos) h calls) from hgen calls _ rfl
  intro calls
  induction calls with
  | nil => intro h _; exact Iff.rfl
  | cons call calls ih =>
    intro h hct
    exact and_congr (decides_iff hct) (ih _ (commitType_next hct))

def callWith (payload : Bytes) : RequestContext := ⟨[some ⟨some ⟨some payload⟩⟩]⟩

/-- Payloads: 1 is a transaction that writes to the namespace `c`, 2 one that writes metadata
there, and every other one changes nothing. -/
def commitProtos : Protos where
  unmarshalProposal := fun b => .ok b
  unmarshalChaincodeProposalPayload := fun b => .ok b
  unmarshalChaincodeInvocationSpec := fun _ => .ok (some (some ⟨[99], []⟩))
  unmarshalProposalResponsePayload := fun b => .ok b
  unmarshalChaincodeAction := fun b => .ok ⟨some ⟨[99], [49]⟩, b, none⟩
  unmarshalChaincodeEvent := fun b => .ok b
  unmarshalSerializedIdentity := fun b => .ok ⟨b, []⟩
  txRwSetFromProtoBytes := fun b =>
    if b = [1] then .ok [⟨[99], some ⟨[⟨[107], false, []⟩], []⟩, []⟩]
    else if b = [2] then .ok [⟨[99], some ⟨[], [⟨[107], []⟩]⟩, []⟩]
    else .ok []
  unmarshalApplicationPolicy := fun _ => .error "unexpected EOF"
  unmarshalChaincodeData := fun b => .ok ⟨[49], b⟩

/-- A response that changes nothing is committed if it comes after one that was; one with a
write of metadata alone is not committed; and one with a write to a namespace that the
second entry ignores is. -/
theorem wrong_decisions :
    ¬ Meets (CheckForCommitHandler.next commitProtos) (Decides commitProtos)
      (newCheckForCommitHandler [] .commitOnWrite) [callWith [1], callWith [0]] ∧
    ¬ Meets (CheckForCommitHandler.next commitProtos) (Decides commitProtos)
      (newCheckForCommitHandler [] .commitOnWrite) [callWith [2]] ∧
    ¬ Meets (CheckForCommitHandler.next commitProtos) (Decides commitProtos)
      (newCheckForCommitHandler [⟨[99], [[100]]⟩, ⟨[99], []⟩] .commitOnWrite) [callWith [1]] := by
  refine ⟨?_, ?_, ?_⟩
  · rintro ⟨-, hd, -⟩
    obtain ⟨action, ha, hor⟩ := hd.shouldCommit.mp (by decide +kernel)
    obtain rfl := Except.ok.inj ha
    rcases hor with hev | ⟨set, hset, hw⟩
    · exact absurd hev (by decide +kernel)
    · obtain rfl := Except.ok.inj hset
      simp [Writes, MetadataWrites, Somewhere] at hw
  · rintro ⟨hd, -⟩
    refine absurd (hd.nextCalled.mpr ⟨_, rfl, .inr ⟨_, rfl, .inr ?_⟩⟩) (by decide +kernel)
    refine ⟨_, List.mem_singleton_self _, ?_, .inl (by decide +kernel)⟩
    rintro ⟨ns, hns, -⟩
    cases hns
  · rintro ⟨hd, -⟩
    obtain ⟨action, ha, hor⟩ := hd.nextCalled.mp (by decide +kernel)
    obtain rfl := Except.ok.inj ha
    rcases hor with hev | ⟨set, hset, hw⟩
    · exact absurd hev (by decide +kernel)
    · obtain rfl := Except.ok.inj hset
      rcases hw with ⟨ns, hns, hi, -⟩ | ⟨ns, hns, hi, -⟩
      · obtain rfl := List.mem_singleton.mp hns
        exact hi ⟨⟨[99], []⟩, by decide, rfl, rfl⟩
      · obtain rfl := List.mem_singleton.mp hns
        exact hi ⟨⟨[99], []⟩, by decide, rfl, rfl⟩

end FabricPeerExt.Txn
