/-
FabricPeerExt.Chaincode.Ucc — the registry of the in-process user chaincodes, `pkg/chaincode/ucc`.
Versions `M` and `M.0` match each other and are both accepted.
-/
import FabricPeerExt.Blkstorage.Conv
import FabricPeerExt.Lib.Run

namespace FabricPeerExt.Chaincode

open Lib
open PvtData (GoString Err)
open Blkstorage (text)

/-! ## Model -/

/-- A chaincode by its name and version. -/
structure UserCC where
  name : GoString
  version : GoString
  deriving DecidableEq, Repr

/-- `chaincodeID`. -/
structure ChaincodeID where
  name : GoString
  version : GoString
  deriving DecidableEq, Repr

/-- `Registry`, without its lock and the creators. -/
abbrev Registry := GoMap ChaincodeID UserCC

/-- The byte of "." -/
def dot : UInt8 := 46

/-- The text "0", the minor version if there is none. -/
def zero : GoString := [48]

/-- The major and the minor version, as `Version.Matches` takes them from the parts. -/
def majorMinor (v : GoString) : GoString × GoString :=
  match v.splitOn dot with
  | [] => ([], zero)
  | [major] => (major, zero)
  | major :: minor :: _ => (major, minor)

/-- `Version.Matches`. -/
def Matches (v other : GoString) : Prop := majorMinor v = majorMinor other

instance (v other : GoString) : Decidable (Matches v other) :=
  inferInstanceAs (Decidable (majorMinor v = majorMinor other))

/-- `Version.Validate`. -/
def validate (v : GoString) : Except Err Unit :=
  match v.splitOn dot with
  | [] | [] :: _ => .error (.plain "no version specified")
  | _ :: _ :: _ :: _ => .error (.plain
      "version must only have a major and optional minor part (e.g. v1 or v1.1)")
  | _ => .ok ()

/-- `Registry.register`. -/
def register (r : Registry) (cc : UserCC) : Except Err Registry :=
  match validate cc.version with
  | .error e => .error (.wrap ("validation error for in-process user chaincode " ++
      s!"[{text cc.name}:{text cc.version}]") e)
  | .ok () => match r.lookup ⟨cc.name, cc.version⟩ with
    | some _ => .error (.plain
        s!"chaincode already registered: [{text cc.name}:{text cc.version}]")
    | none => .ok (r.insert ⟨cc.name, cc.version⟩ cc)

/-- The loop of `registerChaincodes`, which panics at the first chaincode that is refused. -/
def registerChaincodes (descs : List UserCC) : Except Err Registry := forEach register ∅ descs

/-- `chaincodeIDFromString`; the separator is ":". -/
def chaincodeIDFromString (id : GoString) : ChaincodeID :=
  match id.splitOn 58 with
  | name :: version :: _ => ⟨name, version⟩
  | [name] => ⟨name, []⟩
  | [] => ⟨[], []⟩

/-- The chaincode has the name, and its version matches. -/
def fits (ccID : ChaincodeID) (cc : UserCC) : Bool :=
  cc.name = ccID.name ∧ Matches cc.version ccID.version

section
variable (order : RangeOrder (ChaincodeID × UserCC)) (r : Registry)

/-- `Registry.getByID`. -/
def getByID (ccID : ChaincodeID) : Option UserCC :=
  match r.lookup ccID with
  | some cc => some cc
  | none => ((order.order r.toList).map Prod.snd).find? (fits ccID)

/-- `Registry.Get`. -/
def get (name version : GoString) : Option UserCC := getByID order r ⟨name, version⟩

/-- `Registry.GetByPackageID`. -/
def getByPackageID (id : GoString) : Option UserCC := getByID order r (chaincodeIDFromString id)

end

/-! ## Versions -/

/-- The second version is the first one with ".0" behind it. -/
def SpellsZero (v w : GoString) : Prop := w.splitOn dot = v.splitOn dot ++ [zero]

theorem eq_iff_splitOn {v w : GoString} : v = w ↔ v.splitOn dot = w.splitOn dot := by
  refine ⟨fun h => by rw [h], fun h => ?_⟩
  rw [← v.intercalate_splitOn dot, h, w.intercalate_splitOn dot]

theorem validate_ok {v : GoString} (h : validate v = .ok ()) :
    ∃ major, v.splitOn dot = [major] ∨ ∃ minor, v.splitOn dot = [major, minor] := by
  unfold validate at h
  generalize v.splitOn dot = parts at h
  rcases parts with _ | ⟨major, _ | ⟨minor, _ | ⟨patch, rest⟩⟩⟩
  · cases h
  · exact ⟨major, Or.inl rfl⟩
  · exact ⟨major, Or.inr ⟨minor, rfl⟩⟩
  · cases major <;> cases h

/-- Different valid versions match if one spells out the minor version 0 of the other. -/
theorem matches_iff {v w : GoString} (hv : validate v = .ok ()) (hw : validate w = .ok ()) :
    Matches v w ↔ v = w ∨ SpellsZero v w ∨ SpellsZero w v := by
  rw [eq_iff_splitOn, Matches, majorMinor, majorMinor, SpellsZero, SpellsZero]
  obtain ⟨major, hv | ⟨minor, hv⟩⟩ := validate_ok hv <;>
    obtain ⟨major', hw | ⟨minor', hw⟩⟩ := validate_ok hw <;> rw [hv, hw]
  · simp
  · grind
  · grind
  · simp

/-! ## The registry -/

theorem register_ok {r r' : Registry} {cc : UserCC} (h : register r cc = .ok r') :
    validate cc.version = .ok () ∧ r.lookup ⟨cc.name, cc.version⟩ = none ∧
      r' = r.insert ⟨cc.name, cc.version⟩ cc := by
  unfold register at h
  split at h
  · cases h
  next hv =>
    split at h
    · cases h
    next hnone => exact ⟨hv, hnone, (Except.ok.inj h).symm⟩

/-- What is in the registry after the chaincodes were accepted. -/
theorem lookup_of_ok {descs : List UserCC} {r : Registry} (h : registerChaincodes descs = .ok r)
    {id : ChaincodeID} {cc : UserCC} :
    r.lookup id = some cc ↔ cc ∈ descs ∧ id = ⟨cc.name, cc.version⟩ := by
  have hstep : ∀ (s : Registry) a s', a ∈ descs → register s a = .ok s' →
      (s'.lookup id = some cc ↔ s.lookup id = some cc ∨ a = cc ∧ id = ⟨a.name, a.version⟩) := by
    intro s a s' _ hs
    obtain ⟨_, hnone, rfl⟩ := register_ok hs
    rw [GoMap.lookup_insert_eq]
    split
    next hid =>
      subst hid
      simp [hnone]
    next hid => simp [hid]
  simpa using forEach_accumulates hstep h

def Candidate (r : Registry) (ccID : ChaincodeID) (cc : UserCC) : Prop :=
  (∃ id, r.lookup id = some cc) ∧ fits ccID cc = true

/-- Every lookup has one answer, and an exact match has no rival. -/
structure Unambiguous (r : Registry) : Prop where
  unique : ∀ ccID cc cc', Candidate r ccID cc → Candidate r ccID cc' → cc = cc'
  get : ∀ order order' name version, get order r name version = get order' r name version
  getByPackageID : ∀ order order' id, getByPackageID order r id = getByPackageID order' r id
  exact_only : ∀ ccID cc cc', r.lookup ccID = some cc → Candidate r ccID cc' → cc' = cc

/-- What a lookup returns if there is at most one candidate. -/
theorem getByID_eq_some_iff {r : Registry} {ccID : ChaincodeID}
    (huniq : ∀ cc cc', Candidate r ccID cc → Candidate r ccID cc' → cc = cc')
    (order : RangeOrder (ChaincodeID × UserCC)) (cc : UserCC) : getByID order r ccID = some cc ↔
      r.lookup ccID = some cc ∨ r.lookup ccID = none ∧ Candidate r ccID cc := by
  have hmem : ∀ cc, cc ∈ (order.order r.toList).map Prod.snd ↔ ∃ id, r.lookup id = some cc := by
    simp [(order.perm r.toList).mem_iff, GoMap.mem_toList]
  unfold getByID
  cases r.lookup ccID with
  | some _ => simp
  | none =>
    simp only [reduceCtorEq, true_and, false_or]
    have hfound : ∀ {cc}, ((order.order r.toList).map Prod.snd).find? (fits ccID) = some cc →
        Candidate r ccID cc := fun h =>
      ⟨(hmem _).mp (List.mem_of_find?_eq_some h), List.find?_some h⟩
    refine ⟨hfound, fun hcand => ?_⟩
    obtain ⟨cc', hcc'⟩ := Option.isSome_iff_exists.mp
      (List.find?_isSome.mpr ⟨cc, (hmem cc).mpr hcand.1, hcand.2⟩)
    rw [hcc', huniq cc cc' hcand (hfound hcc')]

/-- The lookups are unambiguous exactly if no two chaincodes of one name are registered whose
versions differ in a spelled-out minor version 0. -/
theorem registry_unambiguous_iff {descs : List UserCC} {r : Registry}
    (h : registerChaincodes descs = .ok r) :
    Unambiguous r ↔ ∀ cc ∈ descs, ∀ cc' ∈ descs, cc.name = cc'.name →
      ¬ SpellsZero cc.version cc'.version := by
  have hvalid : ∀ cc ∈ descs, validate cc.version = .ok () := by
    refine forEach_mem (Q := fun cc (_ : Registry) => validate cc.version = .ok ()) ?_ ?_ h
    · exact fun _ _ _ _ hs => (register_ok hs).1
    · exact fun _ _ _ _ _ hv _ => hv
  constructor
  · intro hu cc hcc cc' hcc' hname hzero
    have hl := (lookup_of_ok h).mpr ⟨hcc, rfl⟩
    have hl' := (lookup_of_ok h).mpr ⟨hcc', rfl⟩
    have heq := hu.exact_only _ cc' cc hl' ⟨⟨_, hl⟩, decide_eq_true ⟨hname,
      (matches_iff (hvalid cc hcc) (hvalid cc' hcc')).mpr (Or.inr (Or.inl hzero))⟩⟩
    simp [heq, SpellsZero] at hzero
  · intro hno
    have huniq : ∀ ccID cc cc', Candidate r ccID cc → Candidate r ccID cc' → cc = cc' := by
      rintro ccID cc cc' ⟨⟨id, hl⟩, hfits⟩ ⟨⟨id', hl'⟩, hfits'⟩
      obtain ⟨hname, hm⟩ := of_decide_eq_true hfits
      obtain ⟨hname', hm'⟩ := of_decide_eq_true hfits'
      have hcc := ((lookup_of_ok h).mp hl).1
      have hcc' := ((lookup_of_ok h).mp hl').1
      have hboth := hname.trans hname'.symm
      rcases (matches_iff (hvalid cc hcc) (hvalid cc' hcc')).mp (hm.trans hm'.symm) with
        hv | hv | hv
      · cases cc; cases cc'
        simp_all
      · exact absurd hv (hno cc hcc cc' hcc' hboth)
      · exact absurd hv (hno cc' hcc' cc hcc hboth.symm)
    have horder : ∀ order order' ccID, getByID order r ccID = getByID order' r ccID := by
      intro order order' ccID
      refine Option.ext fun cc => ?_
      rw [getByID_eq_some_iff (huniq ccID), getByID_eq_some_iff (huniq ccID)]
    refine ⟨huniq, fun order order' _ _ => horder order order' _,
      fun order order' _ => horder order order' _, fun ccID cc cc' hl hcand => ?_⟩
    obtain ⟨_, rfl⟩ := (lookup_of_ok h).mp hl
    exact huniq _ cc' cc hcand ⟨⟨_, hl⟩, decide_eq_true ⟨rfl, rfl⟩⟩

/-- Versions "v" and "v.0" of one chaincode are both accepted; which one a request for "v.0.1"
gets depends on the order of the map. -/
theorem registry_ambiguous : ∃ r,
    registerChaincodes [⟨[99], [118]⟩, ⟨[99], [118, 46, 48]⟩] = .ok r ∧
      get (.listed _) r [99] [118, 46, 48, 46, 49] = some ⟨[99], [118, 46, 48]⟩ ∧
      get ⟨List.reverse, List.reverse_perm⟩ r [99] [118, 46, 48, 46, 49] =
        some ⟨[99], [118]⟩ :=
  ⟨_, rfl, by decide, by decide⟩

theorem registry_unambiguous_sample : ∃ r,
    registerChaincodes [⟨[99], [118]⟩, ⟨[99], [118, 46, 49]⟩] = .ok r ∧ Unambiguous r := by
  have h : registerChaincodes [⟨[99], [118]⟩, ⟨[99], [118, 46, 49]⟩] = .ok _ := rfl
  exact ⟨_, h, (registry_unambiguous_iff h).mpr (by unfold SpellsZero; decide)⟩

end FabricPeerExt.Chaincode
