/-
FabricPeerExt.Txn.ProprespValidatorTheorems — what a proposal response that is found valid has
been checked for.
-/
import FabricPeerExt.Lib.Firsts
import FabricPeerExt.Txn.ProprespValidator

namespace FabricPeerExt.Txn

open Lib
open PvtData (GoString Err liftErr wrapErr liftErr_ok wrapErr_ok)
open Validation (SignedData)

/-! ## §1 The cache -/

section
variable (protos : Protos) (crypto : Crypto)

def validateNamespacesWith (lookup : GoString → Except Err ChaincodeDefinition)
    (cc : ChaincodeID) (presp : Bytes) (es : List Endorsement) : List GoString → Verdict
  | [] => .ok ()
  | ns :: rest => match validateDefinition protos crypto cc presp es ns (lookup ns) with
    | .error e => .error e
    | .ok () => validateNamespacesWith lookup cc presp es rest

def validateWith (lookup : GoString → Except Err ChaincodeDefinition) (proposal : Bytes)
    (responses : List ProposalResponse) : Verdict :=
  match otherReason (validateResponses crypto responses) with
  | .error e => .error e
  | .ok () => match namespacesToValidate protos proposal (prespBytes responses) with
    | .error e => .error e
    | .ok (cc, wrNamespace) => validateNamespacesWith protos crypto lookup cc
        (prespBytes responses) (endorsements responses) wrNamespace

variable {protos crypto} {ledger : Ledger}

/-- The definitions read do not depend on what the loop has loaded before. -/
theorem fst_validateNamespaces {cc : ChaincodeID} {presp : Bytes} {es : List Endorsement} :
    ∀ {nss : List GoString} {cache : DefinitionCache},
      (validateNamespaces protos crypto ledger cc presp es nss cache).1 =
        validateNamespacesWith protos crypto (cache.cached (createCCDefinition protos ledger))
          cc presp es nss := by
  intro nss
  induction nss with
  | nil => intro cache; rfl
  | cons ns rest ih =>
    intro cache
    simp only [validateNamespaces, validateNamespacesWith, GoMap.getOrLoad]
    cases validateDefinition protos crypto cc presp es ns
        (cache.cached (createCCDefinition protos ledger) ns) with
    | error e => rfl
    | ok u =>
      dsimp only
      rw [ih]
      congr 1
      funext k
      exact GoMap.cached_afterGet

theorem fst_validate {cache : DefinitionCache} {proposal : Bytes}
    {responses : List ProposalResponse} :
    (validate protos crypto ledger cache proposal responses).1 =
      validateWith protos crypto (cache.cached (createCCDefinition protos ledger)) proposal
        responses := by
  rw [validate, validateWith]
  cases otherReason (validateResponses crypto responses) with
  | error e => rfl
  | ok u =>
    simp only [validateEndorsements]
    cases namespacesToValidate protos proposal (prespBytes responses) with
    | error e => rfl
    | ok found => exact fst_validateNamespaces

/-- What a loop over namespaces leaves in a coherent cache is coherent. -/
theorem coherent_validateNamespaces {cc : ChaincodeID} {presp : Bytes} {es : List Endorsement} :
    ∀ {nss : List GoString} {cache : DefinitionCache},
      cache.Coherent (createCCDefinition protos ledger) →
        (validateNamespaces protos crypto ledger cc presp es nss cache).2.Coherent
          (createCCDefinition protos ledger) := by
  intro nss
  induction nss with
  | nil => intro cache h; exact h
  | cons ns rest ih =>
    intro cache h
    simp only [validateNamespaces, GoMap.getOrLoad]
    split
    next => exact h.afterGet
    next => exact ih h.afterGet

theorem coherent_validate {cache : DefinitionCache} {proposal : Bytes}
    {responses : List ProposalResponse} (h : cache.Coherent (createCCDefinition protos ledger)) :
    (validate protos crypto ledger cache proposal responses).2.Coherent
      (createCCDefinition protos ledger) := by
  rw [validate]
  split
  next => exact h
  next =>
    rw [validateEndorsements]
    split
    next => exact h
    next => exact coherent_validateNamespaces h

end

/-! ## §2 Inversion -/

section
variable {protos : Protos} {crypto : Crypto} {ledger : Ledger} {cache : DefinitionCache}

@[simp] theorem otherReason_ok {α : Type} {r : Except Err α} {a : α} :
    otherReason r = .ok a ↔ r = .ok a := by
  cases r <;> simp [otherReason]

theorem validateSignature_ok {res : ProposalResponse} :
    validateSignature crypto res = .ok () ↔ ∃ e identity, res.endorsement = some e ∧
      crypto.deserializeIdentity e.endorser = .ok identity ∧ identity.validate = .ok () ∧
      identity.verify (res.payload ++ e.endorser) e.signature = .ok () := by
  rw [validateSignature]
  cases res.endorsement with
  | none => simp
  | some e =>
    dsimp only
    cases hid : crypto.deserializeIdentity e.endorser with
    | error err => simp [liftErr, wrapErr, hid]
    | ok identity =>
      dsimp only [liftErr, wrapErr]
      cases hval : identity.validate with
      | error err => simp [hid, hval]
      | ok u =>
        dsimp only
        constructor
        · intro h
          refine ⟨e, identity, rfl, hid, hval, ?_⟩
          split at h
          next hver => exact liftErr_ok.mp (hver.trans h)
          next => cases h
        · rintro ⟨e', identity', he, hid', -, hver⟩
          obtain rfl := Option.some.inj he
          obtain rfl := Except.ok.inj (hid.symm.trans hid')
          rw [hver]

theorem validateResponse_ok {res : ProposalResponse} :
    validateResponse crypto res = .ok () ↔
      (∃ p, res.response = some p ∧ p.succeeded = true) ∧
        validateSignature crypto res = .ok () := by
  rw [validateResponse]
  cases res.response with
  | none => simp
  | some p => cases hp : p.succeeded <;> simp [hp]

theorem validateRest_ok {r1 : ProposalResponse} : ∀ {rs : List ProposalResponse},
    validateRest crypto r1 rs = .ok () ↔
      ∀ r ∈ rs, validateResponse crypto r = .ok () ∧ r1.matches r = true := by
  intro rs
  induction rs with
  | nil => simp [validateRest]
  | cons r rs ih =>
    rw [validateRest, List.forall_mem_cons]
    cases hr : validateResponse crypto r with
    | error e => simp
    | ok u => cases hm : r1.matches r <;> simp [ih]

/-- The responses have a status that is accepted and an endorsement, and match the first. -/
structure Matching (responses : List ProposalResponse) : Prop where
  answered : responses ≠ []
  succeeded : ∀ r ∈ responses, ∃ p, r.response = some p ∧ p.succeeded = true
  endorsed : ∀ r ∈ responses, r.endorsement.isSome = true
  same : ∀ r1 ∈ responses.head?, ∀ r ∈ responses, r1.matches r = true

theorem validateResponses_ok {responses : List ProposalResponse} :
    validateResponses crypto responses = .ok () ↔
      Matching responses ∧ ∀ r ∈ responses, validateSignature crypto r = .ok () := by
  cases responses with
  | nil =>
    rw [validateResponses]
    exact iff_of_false (fun h => by cases h) (fun h => h.1.answered rfl)
  | cons r1 rs =>
    have hloop : validateResponses crypto (r1 :: rs) = .ok () ↔
        validateResponse crypto r1 = .ok () ∧ validateRest crypto r1 rs = .ok () := by
      rw [validateResponses]
      cases validateResponse crypto r1 with
      | error e => simp
      | ok u => simp
    rw [hloop, validateRest_ok]
    constructor
    · rintro ⟨h1, hrest⟩
      have hall : ∀ r ∈ r1 :: rs, validateResponse crypto r = .ok () :=
        List.forall_mem_cons.mpr ⟨h1, fun r hr => (hrest r hr).1⟩
      have hsig : ∀ r ∈ r1 :: rs, validateSignature crypto r = .ok () := fun r hr =>
        (validateResponse_ok.mp (hall r hr)).2
      refine ⟨⟨List.cons_ne_nil r1 rs, fun r hr => (validateResponse_ok.mp (hall r hr)).1, ?_, ?_⟩,
        hsig⟩
      · intro r hr
        obtain ⟨e, -, he, -⟩ := validateSignature_ok.mp (hsig r hr)
        rw [he]
        rfl
      · intro r hr r' hr'
        obtain rfl := Option.some.inj hr
        obtain ⟨⟨p, hp, -⟩, -⟩ := validateResponse_ok.mp h1
        rcases List.mem_cons.mp hr' with rfl | hmem
        · simp [ProposalResponse.matches, hp]
        · exact (hrest r' hmem).2
    · rintro ⟨hm, hsig⟩
      have hall : ∀ r ∈ r1 :: rs, validateResponse crypto r = .ok () := fun r hr =>
        validateResponse_ok.mpr ⟨hm.succeeded r hr, hsig r hr⟩
      refine ⟨hall r1 List.mem_cons_self, fun r hr => ?_⟩
      have hr' := List.mem_cons_of_mem r1 hr
      exact ⟨hall r hr', hm.same r1 rfl r hr'⟩

variable {cc : ChaincodeID} {presp : Bytes} {es : List Endorsement}
    {lookup : GoString → Except Err ChaincodeDefinition} {e : TxValidationCode × Err}

theorem chaincodeId_of_validateChaincodeAction {proposal : Bytes} {action : ChaincodeAction}
    (h : validateChaincodeAction protos proposal action = .ok cc) :
    action.chaincodeId = some cc := by
  rw [validateChaincodeAction] at h
  split at h
  next => cases h
  next => cases h
  next =>
    split at h
    next => cases h
    next hid =>
      split_ifs at h
      split at h
      next => cases h
      next => rw [hid, Except.ok.inj h]

def checked (cc : ChaincodeID) (nss : TxRwSet) : List GoString :=
  cc.name :: ((nss.filter txWritesToNamespace).map NsRwSet.nameSpace).filter (· ≠ cc.name)

def LsccUnwritten (nss : TxRwSet) : Prop :=
  ∀ ns ∈ nss, txWritesToNamespace ns = true → ns.nameSpace ≠ lsccNamespace

theorem writtenNamespaces_ok : ∀ {nss : TxRwSet} {names : List GoString},
    writtenNamespaces cc nss = .ok names ↔
      LsccUnwritten nss ∧ cc.name :: names = checked cc nss := by
  intro nss
  induction nss with
  | nil =>
    intro names
    have hnil : LsccUnwritten [] := fun ns h => by cases h
    simp only [writtenNamespaces, checked, hnil, true_and, Except.ok.injEq, List.filter_nil,
      List.map_nil, List.cons.injEq]
    exact eq_comm
  | cons ns rest ih =>
    intro names
    have hrest : LsccUnwritten (ns :: rest) ↔
        (txWritesToNamespace ns = true → ns.nameSpace ≠ lsccNamespace) ∧ LsccUnwritten rest :=
      List.forall_mem_cons
    simp only [checked, List.cons.injEq, true_and] at ih ⊢
    rw [writtenNamespaces, hrest]
    cases hw : txWritesToNamespace ns with
    | false => simp [hw, ih]
    | true =>
      by_cases hlscc : ns.nameSpace = lsccNamespace
      · simp [hlscc]
      · cases hr : writtenNamespaces cc rest with
        | error e =>
          have hno : ¬ LsccUnwritten rest := fun hl => by
            cases hr.symm.trans (ih.mpr ⟨hl, rfl⟩)
          simp [hlscc, hno]
        | ok names' =>
          obtain ⟨hl, rfl⟩ := ih.mp hr
          simp only [Bool.not_true, Bool.false_eq_true, if_false, hlscc, ne_eq, not_false_eq_true,
            imp_self, hl, and_self, true_and, List.filter_cons, hw, if_true, List.map_cons,
            Except.ok.injEq]
          by_cases hname : ns.nameSpace = cc.name
          · simp [hname, eq_comm]
          · simp [hname, eq_comm]

theorem namespacesToValidate_ok {proposal presp : Bytes} {names : List GoString} :
    namespacesToValidate protos proposal presp = .ok (cc, names) ↔
      ∃ action nss, getChaincodeAction protos presp = .ok action ∧
        validateChaincodeAction protos proposal action = .ok cc ∧
        protos.txRwSetFromProtoBytes action.results = .ok nss ∧ LsccUnwritten nss ∧
        names = checked cc nss := by
  constructor
  · intro h
    rw [namespacesToValidate] at h
    split at h
    next => cases h
    next action ha =>
      split at h
      next => cases h
      next cc' hc =>
        split at h
        next => cases h
        next names' hn =>
          obtain ⟨rfl, rfl⟩ := Prod.mk.inj (Except.ok.inj h)
          rw [getNamespacesFromWriteSets] at hn
          split at hn
          next => cases hn
          next nss hnss =>
            obtain ⟨hl, hnames⟩ := writtenNamespaces_ok.mp hn
            exact ⟨action, nss, otherReason_ok.mp ha, otherReason_ok.mp hc, hnss, hl, hnames⟩
  · rintro ⟨action, nss, ha, hc, hn, hl, rfl⟩
    have hw := (@writtenNamespaces_ok cc nss _).mpr ⟨hl, rfl⟩
    simp only [namespacesToValidate, ha, hc, otherReason, getNamespacesFromWriteSets, hn, hw]
    rfl

/-! ### The signature set -/

def identityOf (protos : Protos) (e : Endorsement) : Option SerializedIdentity :=
  (protos.unmarshalSerializedIdentity e.endorser).toOption

def identityKey (protos : Protos) (e : Endorsement) : Bytes :=
  (identityOf protos e).elim [] fun identity => identity.mspid ++ identity.idBytes

def signatureSet {κ : Type} [DecidableEq κ] (key : Endorsement → κ) (presp : Bytes)
    (es : List Endorsement) : List SignedData := (firsts key [] es).map (signedData presp)

theorem signedData_injective (presp : Bytes) : Function.Injective (signedData presp) := by
  intro e e' h
  obtain ⟨endorser, signature⟩ := e
  obtain ⟨endorser', signature'⟩ := e'
  simp only [signedData, SignedData.mk.injEq] at h
  rw [h.2.1, h.2.2]

def Readable (protos : Protos) (es : List Endorsement) : Prop :=
  ∀ e ∈ es, (identityOf protos e).isSome = true

theorem deduplicateLoop_ok :
    ∀ {es : List Endorsement} {seen : List Bytes} {set : List SignedData},
      deduplicateLoop protos presp seen es = .ok set ↔ Readable protos es ∧
        set = (firsts (identityKey protos) seen es).map (signedData presp) := by
  intro es
  induction es with
  | nil =>
    intro seen set
    have hnil : Readable protos [] := fun e h => by cases h
    simp only [deduplicateLoop, hnil, true_and, firsts, List.map_nil, Except.ok.injEq]
    exact eq_comm
  | cons e es ih =>
    intro seen set
    have hread : Readable protos (e :: es) ↔
        (identityOf protos e).isSome = true ∧ Readable protos es := List.forall_mem_cons
    rw [deduplicateLoop, hread]
    cases hid : protos.unmarshalSerializedIdentity e.endorser with
    | error err => simp [liftErr, wrapErr, identityOf, hid, Except.toOption]
    | ok identity =>
      have hsome : identityOf protos e = some identity := by
        rw [identityOf, hid]
        rfl
      have hkey : identityKey protos e = identity.mspid ++ identity.idBytes := by
        rw [identityKey, hsome]
        rfl
      simp only [liftErr, wrapErr, hsome, Option.isSome_some, true_and, firsts, hkey]
      by_cases hseen : identity.mspid ++ identity.idBytes ∈ seen
      · rw [if_pos hseen, if_pos hseen]
        exact ih
      · rw [if_neg hseen, if_neg hseen, List.map_cons]
        cases hr :
            deduplicateLoop protos presp ((identity.mspid ++ identity.idBytes) :: seen) es with
        | error err =>
          have hno : ¬ Readable protos es := fun hall => by
            cases hr.symm.trans (ih.mpr ⟨hall, rfl⟩)
          simp [hno]
        | ok set' =>
          obtain ⟨hall, rfl⟩ := ih.mp hr
          simp [hall, eq_comm]

theorem deduplicateIdentity_ok {set : List SignedData} :
    deduplicateIdentity protos presp es = .ok set ↔
      Readable protos es ∧ set = signatureSet (identityKey protos) presp es :=
  deduplicateLoop_ok

theorem validatePolicyForCC_ok {presp policy : Bytes} :
    validatePolicyForCC protos crypto presp es policy = .ok () ↔ Readable protos es ∧
      crypto.evaluate policy (signatureSet (identityKey protos) presp es) = .ok () := by
  rw [validatePolicyForCC]
  cases hd : deduplicateIdentity protos presp es with
  | error e =>
    have hno : ¬ Readable protos es := fun hall => by
      cases hd.symm.trans (deduplicateIdentity_ok.mpr ⟨hall, rfl⟩)
    simp [hno]
  | ok set =>
    obtain ⟨hall, rfl⟩ := deduplicateIdentity_ok.mp hd
    simp only [hall, true_and]
    cases crypto.evaluate policy (signatureSet (identityKey protos) presp es) with
    | ok u => simp
    | error e =>
      simp only [reduceCtorEq, iff_false]
      split <;> simp

theorem validateDefinition_ok {ns : GoString} {ccd : Except Err ChaincodeDefinition} :
    validateDefinition protos crypto cc presp es ns ccd = .ok () ↔
      ∃ d, ccd = .ok d ∧ (ns = cc.name → d.version = cc.version) ∧ Readable protos es ∧
        crypto.evaluate d.policy (signatureSet (identityKey protos) presp es) = .ok () := by
  rw [validateDefinition.eq_def]
  cases ccd with
  | error e => simp
  | ok d =>
    simp only [Except.ok.injEq, exists_eq_left', ← validatePolicyForCC_ok]
    by_cases hold : ns = cc.name ∧ d.version ≠ cc.version
    · simp [hold]
    · rw [if_neg hold]
      have hversion : ns = cc.name → d.version = cc.version := by
        simpa using hold
      cases validatePolicyForCC protos crypto presp es d.policy with
      | error e => simp
      | ok u => simpa using hversion

theorem validateNamespacesWith_ok : ∀ {nss : List GoString},
      validateNamespacesWith protos crypto lookup cc presp es nss = .ok () ↔
        ∀ ns ∈ nss, validateDefinition protos crypto cc presp es ns (lookup ns) = .ok () := by
  intro nss
  induction nss with
  | nil => simp [validateNamespacesWith]
  | cons ns rest ih =>
    rw [validateNamespacesWith, List.forall_mem_cons]
    cases validateDefinition protos crypto cc presp es ns (lookup ns) with
    | error e => simp
    | ok u => simp [ih]

/-- The messages pass every check that depends neither on signatures nor on policies: `cc` is
the chaincode invoked and `nss` the read-write set. -/
structure Reaches (protos : Protos) (lookup : GoString → Except Err ChaincodeDefinition)
    (proposal : Bytes) (responses : List ProposalResponse) (cc : ChaincodeID) (nss : TxRwSet) :
    Prop where
  matching : Matching responses
  simulated : ∃ action, getChaincodeAction protos (prespBytes responses) = .ok action ∧
    validateChaincodeAction protos proposal action = .ok cc ∧
    protos.txRwSetFromProtoBytes action.results = .ok nss
  unwritten : LsccUnwritten nss
  readable : Readable protos (endorsements responses)
  defined : ∀ ns ∈ checked cc nss, ∃ d, lookup ns = .ok d
  version : ∀ d, lookup cc.name = .ok d → d.version = cc.version

/-- The policies that are evaluated are satisfied by the signature set of
`deduplicateIdentity`. -/
def Evaluated (protos : Protos) (crypto : Crypto)
    (lookup : GoString → Except Err ChaincodeDefinition) (responses : List ProposalResponse)
    (cc : ChaincodeID) (nss : TxRwSet) : Prop :=
  ∀ ns ∈ checked cc nss, ∀ d, lookup ns = .ok d → crypto.evaluate d.policy
    (signatureSet (identityKey protos) (prespBytes responses) (endorsements responses)) = .ok ()

theorem validateWith_ok {proposal : Bytes} {responses : List ProposalResponse} :
    validateWith protos crypto lookup proposal responses = .ok () ↔
      (∀ r ∈ responses, validateSignature crypto r = .ok ()) ∧
        ∃ cc nss, Reaches protos lookup proposal responses cc nss ∧
          Evaluated protos crypto lookup responses cc nss := by
  constructor
  · intro h
    rw [validateWith] at h
    split at h
    next => cases h
    next hr =>
      obtain ⟨hm, hsig⟩ := validateResponses_ok.mp (otherReason_ok.mp hr)
      split at h
      next => cases h
      next cc names hn =>
        obtain ⟨action, nss, ha, hc, hnss, hl, rfl⟩ := namespacesToValidate_ok.mp hn
        have hdef : ∀ ns ∈ checked cc nss, ∃ d, lookup ns = .ok d ∧ _ := fun ns hns =>
          validateDefinition_ok.mp (validateNamespacesWith_ok.mp h ns hns)
        have hself : cc.name ∈ checked cc nss := List.mem_cons_self
        refine ⟨hsig, cc, nss, ⟨hm, ⟨action, ha, hc, hnss⟩, hl, ?_, ?_, ?_⟩, ?_⟩
        · obtain ⟨-, -, -, hread, -⟩ := hdef cc.name hself
          exact hread
        · intro ns hns
          obtain ⟨d, hd, -⟩ := hdef ns hns
          exact ⟨d, hd⟩
        · intro d hd
          obtain ⟨d', hd', hversion, -⟩ := hdef cc.name hself
          rw [Except.ok.inj (hd.symm.trans hd')]
          exact hversion rfl
        · intro ns hns d hd
          obtain ⟨d', hd', -, -, heval⟩ := hdef ns hns
          rw [Except.ok.inj (hd.symm.trans hd')]
          exact heval
  · rintro ⟨hsig, cc, nss, hreach, heval⟩
    obtain ⟨action, ha, hc, hnss⟩ := hreach.simulated
    have hr := validateResponses_ok.mpr ⟨hreach.matching, hsig⟩
    have hn := namespacesToValidate_ok.mpr ⟨action, nss, ha, hc, hnss, hreach.unwritten, rfl⟩
    rw [validateWith, otherReason_ok.mpr hr, hn]
    refine validateNamespacesWith_ok.mpr fun ns hns => validateDefinition_ok.mpr ?_
    obtain ⟨d, hd⟩ := hreach.defined ns hns
    refine ⟨d, hd, fun hname => ?_, hreach.readable, heval ns hns d hd⟩
    subst hname
    exact hreach.version d hd

theorem code_ne_valid_of_otherReason {α : Type} {r : Except Err α}
    (h : otherReason r = .error e) : e.1 ≠ .valid := by
  cases r with
  | ok a => cases h
  | error err =>
    cases h
    exact fun hc => by cases hc

theorem code_ne_valid_of_writtenNamespaces :
    ∀ {nss : TxRwSet}, writtenNamespaces cc nss = .error e → e.1 ≠ .valid := by
  intro nss
  induction nss with
  | nil => intro h; cases h
  | cons ns rest ih =>
    intro h
    rw [writtenNamespaces] at h
    split at h
    next => exact ih h
    next =>
      split at h
      next =>
        cases h
        exact fun hc => by cases hc
      next =>
        split at h
        next hr =>
          cases h
          exact ih hr
        next => cases h

theorem code_ne_valid_of_namespacesToValidate {proposal presp : Bytes}
    (h : namespacesToValidate protos proposal presp = .error e) :
    e.1 ≠ .valid := by
  rw [namespacesToValidate] at h
  split at h
  next ha => cases h; exact code_ne_valid_of_otherReason ha
  next =>
    split at h
    next hc => cases h; exact code_ne_valid_of_otherReason hc
    next =>
      split at h
      next hn =>
        cases h
        rw [getNamespacesFromWriteSets] at hn
        split at hn
        next => cases hn; exact fun hc => by cases hc
        next => exact code_ne_valid_of_writtenNamespaces hn
      next => cases h

theorem code_ne_valid_of_validateDefinition {ns : GoString} {ccd : Except Err ChaincodeDefinition}
    (h : validateDefinition protos crypto cc presp es ns ccd = .error e) : e.1 ≠ .valid := by
  rw [validateDefinition.eq_def] at h
  split at h
  next => cases h; exact fun hc => by cases hc
  next =>
    split at h
    next => cases h; exact fun hc => by cases hc
    next =>
      split at h
      next => cases h; exact fun hc => by cases hc
      next => cases h

theorem code_ne_valid_of_validateNamespacesWith : ∀ {nss : List GoString},
      validateNamespacesWith protos crypto lookup cc presp es nss = .error e → e.1 ≠ .valid := by
  intro nss
  induction nss with
  | nil => intro h; cases h
  | cons ns rest ih =>
    intro h
    rw [validateNamespacesWith] at h
    split at h
    next hd => cases h; exact code_ne_valid_of_validateDefinition hd
    next => exact ih h

theorem code_ne_valid {proposal : Bytes} {responses : List ProposalResponse}
    (h : validateWith protos crypto lookup proposal responses = .error e) : e.1 ≠ .valid := by
  rw [validateWith] at h
  split at h
  next hr => cases h; exact code_ne_valid_of_otherReason hr
  next =>
    split at h
    next hn => cases h; exact code_ne_valid_of_namespacesToValidate hn
    next => exact code_ne_valid_of_validateNamespacesWith h

/-- An error never has the code for valid. -/
theorem code_valid_iff {proposal : Bytes} {responses : List ProposalResponse} :
    (validateWith protos crypto lookup proposal responses).code = .valid ↔
      validateWith protos crypto lookup proposal responses = .ok () := by
  refine ⟨fun h => ?_, fun h => by rw [h]; rfl⟩
  cases hv : validateWith protos crypto lookup proposal responses with
  | ok u => rfl
  | error e =>
    rw [hv] at h
    exact absurd h (code_ne_valid hv)

end

/-! ## §3 Soundness -/

def Affects (cc : ChaincodeID) (nss : TxRwSet) (name : GoString) : Prop :=
  name = cc.name ∨ ∃ ns ∈ nss, ns.Modified ∧ ns.nameSpace = name

/-- What the endorsements of a transaction should be worth. -/
structure Justified (protos : Protos) (crypto : Crypto) (ledger : Ledger)
    (responses : List ProposalResponse) : Prop where
  payload : ∀ r ∈ responses, ∀ r' ∈ responses, r.payload = r'.payload
  status : ∀ r ∈ responses, ∀ r' ∈ responses,
    r.response.map Response.status = r'.response.map Response.status
  signed : ∀ r ∈ responses, ∃ e identity, r.endorsement = some e ∧
    crypto.deserializeIdentity e.endorser = .ok identity ∧
    identity.verify (r.payload ++ e.endorser) e.signature = .ok ()
  endorsed : ∃ action cc nss, getChaincodeAction protos (prespBytes responses) = .ok action ∧
    action.chaincodeId = some cc ∧ protos.txRwSetFromProtoBytes action.results = .ok nss ∧
    (∃ d, createCCDefinition protos ledger cc.name = .ok d ∧ d.version = cc.version) ∧
    ∀ name, Affects cc nss name → ∃ d, createCCDefinition protos ledger name = .ok d ∧
      crypto.evaluate d.policy
        (signatureSet (identityOf protos) (prespBytes responses) (endorsements responses)) = .ok ()

/-- Whatever the identities and the policy evaluator are: responses that are found valid are
justified. -/
def Sound (protos : Protos) (ledger : Ledger) (cache : DefinitionCache) (proposal : Bytes)
    (responses : List ProposalResponse) : Prop :=
  ∀ crypto, (validate protos crypto ledger cache proposal responses).1.code = .valid →
    Justified protos crypto ledger responses

/-- The policies that are evaluated are those that matter: the invoked chaincode has its
current version, the keys of the endorsers tell them apart, and the current policy of every
namespace affected is one of those evaluated. -/
structure Covered (protos : Protos) (ledger : Ledger) (cache : DefinitionCache)
    (responses : List ProposalResponse) (cc : ChaincodeID) (nss : TxRwSet) : Prop where
  version : ∃ d, createCCDefinition protos ledger cc.name = .ok d ∧ d.version = cc.version
  identities : ∀ e ∈ endorsements responses, ∀ e' ∈ endorsements responses,
    identityKey protos e = identityKey protos e' → identityOf protos e = identityOf protos e'
  policies : ∀ name, Affects cc nss name → ∃ d, createCCDefinition protos ledger name = .ok d ∧
    ∃ ns ∈ checked cc nss, ∃ d', cache.cached (createCCDefinition protos ledger) ns = .ok d' ∧
      d'.policy = d.policy

section
variable {protos : Protos} {ledger : Ledger} {cache : DefinitionCache} {proposal : Bytes}
  {responses : List ProposalResponse}

/-- The endorsers are told apart exactly if the two signature sets are one. -/
theorem signatureSet_eq_iff {presp : Bytes} {es : List Endorsement} :
    signatureSet (identityKey protos) presp es = signatureSet (identityOf protos) presp es ↔
      ∀ e ∈ es, ∀ e' ∈ es, identityKey protos e = identityKey protos e' →
        identityOf protos e = identityOf protos e' := by
  rw [signatureSet, signatureSet, (List.map_injective_iff.mpr (signedData_injective presp)).eq_iff]
  refine firsts_eq_iff fun e e' h => ?_
  rw [identityKey, identityKey, h]

theorem Matching.payload_eq (h : Matching responses) :
    ∀ r ∈ responses, ∀ r' ∈ responses, r.payload = r'.payload ∧
      r.response.map Response.status = r'.response.map Response.status := by
  obtain ⟨r1, hr1⟩ : ∃ r1, responses.head? = some r1 := by
    cases responses with
    | nil => exact absurd rfl h.answered
    | cons r1 rs => exact ⟨r1, rfl⟩
  have hfirst : ∀ r ∈ responses, r.payload = r1.payload ∧
      r.response.map Response.status = r1.response.map Response.status := by
    intro r hr
    have hm := h.same r1 hr1 r hr
    rw [ProposalResponse.matches] at hm
    split at hm
    next p1 p h1 hp =>
      simp only [Bool.and_eq_true, beq_iff_eq] at hm
      rw [h1, hp]
      exact ⟨hm.1.2.symm, congrArg some hm.1.1.symm⟩
    next => cases hm
  intro r hr r' hr'
  exact ⟨(hfirst r hr).1.trans (hfirst r' hr').1.symm,
    (hfirst r hr).2.trans (hfirst r' hr').2.symm⟩

/-- Every identity is accepted, and exactly the policies that are evaluated are satisfied by
the set that is evaluated. -/
def leastCrypto (policies : List Bytes) (set : List SignedData) : Crypto where
  deserializeIdentity := fun _ => .ok ⟨.ok (), fun _ _ => .ok ()⟩
  evaluate := fun policy s => if policy ∈ policies ∧ s = set then .ok () else .error "not satisfied"

theorem evaluate_leastCrypto {policies : List Bytes} {set s : List SignedData} {policy : Bytes} :
    (leastCrypto policies set).evaluate policy s = .ok () ↔ policy ∈ policies ∧ s = set := by
  simp only [leastCrypto]
  split
  next h => exact iff_of_true rfl h
  next h => exact iff_of_false (fun he => by cases he) h

def policiesOf (lookup : GoString → Except Err ChaincodeDefinition) (names : List GoString) :
    List Bytes :=
  names.filterMap fun ns => (lookup ns).toOption.map ChaincodeDefinition.policy

theorem mem_policiesOf {lookup : GoString → Except Err ChaincodeDefinition}
    {names : List GoString} {policy : Bytes} :
    policy ∈ policiesOf lookup names ↔
      ∃ ns ∈ names, ∃ d, lookup ns = .ok d ∧ d.policy = policy := by
  rw [policiesOf, List.mem_filterMap]
  refine exists_congr fun ns => and_congr_right fun _ => ?_
  cases lookup ns <;> simp [Except.toOption]

/-- Responses whose policies do not all matter are found valid with some policy evaluator
that does not justify them. -/
theorem Sound.covered (h : Sound protos ledger cache proposal responses) {cc : ChaincodeID}
    {nss : TxRwSet} (hreach : Reaches protos (cache.cached (createCCDefinition protos ledger))
      proposal responses cc nss) : Covered protos ledger cache responses cc nss := by
  let lookup := cache.cached (createCCDefinition protos ledger)
  let set := signatureSet (identityKey protos) (prespBytes responses) (endorsements responses)
  let crypto := leastCrypto (policiesOf lookup (checked cc nss)) set
  have hsig : ∀ r ∈ responses, validateSignature crypto r = .ok () := by
    intro r hr
    obtain ⟨e, he⟩ := Option.isSome_iff_exists.mp (hreach.matching.endorsed r hr)
    exact validateSignature_ok.mpr ⟨e, _, he, rfl, rfl, rfl⟩
  have heval : Evaluated protos crypto lookup responses cc nss := fun ns hns d hd =>
    evaluate_leastCrypto.mpr ⟨mem_policiesOf.mpr ⟨ns, hns, d, hd, rfl⟩, rfl⟩
  have hvalid : (validate protos crypto ledger cache proposal responses).1.code = .valid := by
    rw [fst_validate, code_valid_iff]
    exact validateWith_ok.mpr ⟨hsig, cc, nss, hreach, heval⟩
  obtain ⟨action, cc', nss', ha, hcc, hnss, hversion, hpolicies⟩ := (h crypto hvalid).endorsed
  -- The chaincode and the read-write set are read from the same payload.
  obtain ⟨action', ha', hc', hnss'⟩ := hreach.simulated
  obtain rfl := Except.ok.inj (ha.symm.trans ha')
  obtain rfl := Option.some.inj (hcc.symm.trans (chaincodeId_of_validateChaincodeAction hc'))
  obtain rfl := Except.ok.inj (hnss.symm.trans hnss')
  refine ⟨hversion, ?_, fun name hname => ?_⟩
  · obtain ⟨d, -, hd⟩ := hpolicies cc'.name (.inl rfl)
    exact signatureSet_eq_iff.mp (evaluate_leastCrypto.mp hd).2.symm
  · obtain ⟨d, hd, he⟩ := hpolicies name hname
    exact ⟨d, hd, mem_policiesOf.mp (evaluate_leastCrypto.mp he).1⟩

end

/-- Responses that are found valid are justified, whatever the identities and the policy
evaluator are, exactly if those that pass the other checks are covered. -/
theorem validate_sound_iff (protos : Protos) (ledger : Ledger) (cache : DefinitionCache)
    (proposal : Bytes) (responses : List ProposalResponse) :
    Sound protos ledger cache proposal responses ↔
      ∀ cc nss, Reaches protos (cache.cached (createCCDefinition protos ledger)) proposal
        responses cc nss → Covered protos ledger cache responses cc nss := by
  refine ⟨fun h cc nss hreach => h.covered hreach, fun h crypto hvalid => ?_⟩
  rw [fst_validate, code_valid_iff, validateWith_ok] at hvalid
  obtain ⟨hsig, cc, nss, hreach, heval⟩ := hvalid
  have hcov := h cc nss hreach
  obtain ⟨action, ha, hc, hnss⟩ := hreach.simulated
  refine ⟨fun r hr r' hr' => (hreach.matching.payload_eq r hr r' hr').1,
    fun r hr r' hr' => (hreach.matching.payload_eq r hr r' hr').2, fun r hr => ?_,
    action, cc, nss, ha, chaincodeId_of_validateChaincodeAction hc, hnss, hcov.version,
    fun name hname => ?_⟩
  · obtain ⟨e, identity, he, hid, -, hverify⟩ := validateSignature_ok.mp (hsig r hr)
    exact ⟨e, identity, he, hid, hverify⟩
  · obtain ⟨d, hd, ns, hns, d', hd', hpolicy⟩ := hcov.policies name hname
    refine ⟨d, hd, ?_⟩
    rw [← signatureSet_eq_iff.mpr hcov.identities, ← hpolicy]
    exact heval ns hns d' hd'

/-- A payload that invokes the chaincode `c`, version 1, and writes metadata of a key of the
namespace `d`. The policy of a chaincode is its name. -/
def metadataProtos : Protos where
  unmarshalProposal := fun b => .ok b
  unmarshalChaincodeProposalPayload := fun b => .ok b
  unmarshalChaincodeInvocationSpec := fun _ => .ok (some (some ⟨[99], []⟩))
  unmarshalProposalResponsePayload := fun b => .ok b
  unmarshalChaincodeAction := fun _ => .ok ⟨some ⟨[99], [49]⟩, [], none⟩
  unmarshalChaincodeEvent := fun b => .ok b
  unmarshalSerializedIdentity := fun b => .ok ⟨b, []⟩
  txRwSetFromProtoBytes := fun _ => .ok [⟨[100], some ⟨[], [⟨[107], []⟩]⟩, []⟩]
  unmarshalApplicationPolicy := fun _ => .error "unexpected EOF"
  unmarshalChaincodeData := fun b => .ok ⟨[49], b⟩

def lsccLedger : Ledger where
  chaincodeInfo := fun _ => .error "unknown chaincode"
  getState := fun name => .ok name

def nameCrypto : Crypto where
  deserializeIdentity := fun _ => .ok ⟨.ok (), fun _ _ => .ok ()⟩
  evaluate := fun policy s =>
    if policy ∈ s.map SignedData.identity then .ok () else .error "not satisfied"

/-- The endorser `c` alone endorses a transaction that changes metadata of `d`. -/
theorem not_sound_metadata :
    ¬ Sound metadataProtos lsccLedger ∅ [] [⟨some ⟨200, []⟩, [], some ⟨[99], []⟩⟩] := by
  intro h
  obtain ⟨action, cc, nss, ha, hcc, hnss, -, hpolicies⟩ :=
    (h nameCrypto (by decide +kernel)).endorsed
  cases ha
  cases hcc
  cases hnss
  obtain ⟨d, hd, heval⟩ := hpolicies [100] (.inr ⟨_, List.mem_cons_self, .inl rfl, rfl⟩)
  have hpolicy : d = ⟨[49], [100]⟩ := Except.ok.inj (hd.symm.trans (by decide +kernel))
  subst hpolicy
  exact absurd heval (by decide +kernel)

end FabricPeerExt.Txn
