/-
FabricPeerExt.Validation.Results — validation results, their cache, and the policy that decides
whether they are used: `validationresults.go`, and the part of `policyevaluator.go` about results.

Every field of a result from another peer, `Local` included, is what the sender wrote.
-/
import FabricPeerExt.Lib.CodecInstances
import FabricPeerExt.Validation.TxResults

namespace FabricPeerExt.Validation

open Lib

/-- `Results`. -/
structure Results where
  blockNumber : UInt64
  txFlags : ValidationFlags
  txIDs : List TxID
  err : String
  endpoint : Bytes
  /-- `Local`: the results claim to be this peer's own. -/
  isLocal : Bool
  mspID : Bytes
  signature : Bytes
  identity : Bytes
  deriving DecidableEq, Repr

/-! ## The cache -/

/-- `hash`: FNV-1a with 32 bits, as `hash/fnv` computes it. -/
def hash (txFlags : ValidationFlags) : UInt32 :=
  txFlags.foldl (fun h b => (h ^^^ b.toUInt32) * 16777619) 2166136261

/-- `results`: those of a block by the hash of their flags. -/
abbrev Segments := GoMap UInt32 (List Results)

/-- `Cache`. -/
abbrev Cache := GoMap UInt64 Segments

namespace Cache

def segment (c : Cache) (blockNum : UInt64) (h : UInt32) : List Results :=
  ((c.lookup blockNum).bind (·.lookup h)).getD []

/-- `Cache.Add`, with `results.add`. -/
def add (c : Cache) (result : Results) : Cache × List Results :=
  let segments := (c.lookup result.blockNumber).getD ∅
  let results := (segments.lookup (hash result.txFlags)).getD [] ++ [result]
  (c.insert result.blockNumber (segments.insert (hash result.txFlags) results), results)

/-- `Cache.Remove`: the new cache, and the results of all segments of the block. -/
def remove (c : Cache) (blockNum : UInt64) : Cache × List Results :=
  match c.lookup blockNum with
  | none => (c, [])
  | some segments => (c.erase blockNum, segments.toList.flatMap Prod.snd)

theorem snd_add (c : Cache) (r : Results) :
    (c.add r).2 = c.segment r.blockNumber (hash r.txFlags) ++ [r] := by
  unfold add segment
  cases c.lookup r.blockNumber <;> rfl

theorem segment_add (c : Cache) (r : Results) (b : UInt64) (h : UInt32) :
    (c.add r).1.segment b h =
      if b = r.blockNumber ∧ h = hash r.txFlags then c.segment b h ++ [r] else c.segment b h := by
  unfold add segment
  by_cases hb : b = r.blockNumber
  · subst hb
    rw [AList.lookup_insert, Option.bind_some]
    by_cases hh : h = hash r.txFlags
    · subst hh
      rw [AList.lookup_insert, if_pos ⟨rfl, rfl⟩]
      cases c.lookup r.blockNumber <;> rfl
    · rw [AList.lookup_insert_ne hh, if_neg fun hc => hh hc.2]
      cases c.lookup r.blockNumber <;> rfl
  · rw [AList.lookup_insert_ne hb, if_neg fun hc => hb hc.1]

theorem segment_remove (c : Cache) (b : UInt64) (h : UInt32) : (c.remove b).1.segment b h = [] := by
  unfold remove segment
  cases hb : c.lookup b with
  | none => simp [hb]
  | some segments => simp

end Cache

/-! ## The policy -/

/-- `protoutil.SignedData`. -/
structure SignedData where
  data : Bytes
  identity : Bytes
  signature : Bytes
  deriving DecidableEq, Repr

/-- `binary.PutUvarint` into a buffer of `binary.MaxVarintLen64` bytes: the bytes after the
number stay zero. -/
def putUvarint (n : UInt64) : Bytes :=
  encodeBase128 9 n.toNat ++ List.replicate (10 - (encodeBase128 9 n.toNat).length) 0

/-- `GetDataToSign`. -/
def getDataToSign (blockNum : UInt64) (txFlags identity : Bytes) : Bytes :=
  putUvarint blockNum ++ txFlags ++ identity

def signedData (vr : Results) : SignedData :=
  ⟨getDataToSign vr.blockNumber vr.txFlags vr.identity, vr.identity, vr.signature⟩

/-- `getSignatureSet`. -/
def getSignatureSet (validationResults : List Results) : List SignedData :=
  validationResults.map signedData

/-- What `ValidateResults` reads of the policy evaluator: the organisation of this peer, and
the outcome of `getPolicyValidator`, a policy whose `EvaluateSignedData` is Fabric's. -/
structure PolicyEvaluator where
  channelID : String
  selfMspID : Bytes
  getPolicyValidator : Except String (List SignedData → Except String Unit)

namespace PolicyEvaluator

variable (p : PolicyEvaluator)

def evaluate (result : Results) : Except String Unit :=
  match p.getPolicyValidator with
  | .error e => .error s!"unable to get policy validator: {e}"
  | .ok policyValidator => policyValidator (getSignatureSet [result])

/-- The loop of `ValidateResults`; `none` when no result of the segment decides. -/
def firstDecision : List Results → Option (Except String Unit)
  | [] => none
  | result :: results =>
    if result.isLocal then some (.ok ())
    else if result.mspID ≠ p.selfMspID then firstDecision results
    else some (p.evaluate result)

/-- The error of `ValidateResults` when no result of the segment decides. -/
def noLocalResults (results : List Results) : String :=
  let blockNumber := (results.head?.map Results.blockNumber).getD 0
  s!"[{p.channelID}] No validation results from the local org for block {blockNumber}"

/-- `PolicyEvaluator.ValidateResults`. -/
def validateResults (results : List Results) : Except String Unit :=
  (p.firstDecision results).getD (.error (p.noLocalResults results))

end PolicyEvaluator

end FabricPeerExt.Validation
