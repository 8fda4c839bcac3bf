/-
FabricPeerExt.PvtData.Assembler — putting the write sets of a block together: `TxPvtdataAssembler`
of `common/helper.go`, the v1.1 format of `common/v11.go`, and the loop of
`cdbpvtdatastore/blockpvtdata_assembler.go`, which the cache runs too.
-/
import FabricPeerExt.PvtData.CouchConv
import FabricPeerExt.PvtData.Helper

namespace FabricPeerExt.PvtData

open Lib Common

/-! ## One transaction -/

/-- `TxPvtdataAssembler`. Its `firstCall` is `currentNsWSet = none`: the current
namespace is taken away once, by the last call. -/
structure TxPvtdataAssembler where
  blockNum : UInt64
  txNum : UInt64
  nsPvtRwset : List NsPvtReadWriteSet
  currentNsWSet : Option NsPvtReadWriteSet
  deriving DecidableEq

namespace TxPvtdataAssembler

def new (blockNum txNum : UInt64) : TxPvtdataAssembler := ⟨blockNum, txNum, [], none⟩

/-- `TxPvtdataAssembler.Add`. -/
def add (a : TxPvtdataAssembler) (ns : GoString) (collPvtWset : CollectionPvtReadWriteSet) :
    TxPvtdataAssembler :=
  match a.currentNsWSet with
  | none => { a with currentNsWSet := some ⟨ns, [collPvtWset]⟩ }
  | some cur =>
    if cur.namespaceName ≠ ns then
      { a with
        nsPvtRwset := a.nsPvtRwset ++ [cur]
        currentNsWSet := some ⟨ns, [collPvtWset]⟩ }
    else
      { a with
        currentNsWSet := some ⟨ns, cur.collectionPvtRwset ++ [collPvtWset]⟩ }

/-- `TxPvtdataAssembler.GetTxPvtdata`, with `done`. -/
def getTxPvtdata (a : TxPvtdataAssembler) : RetrievedTxPvtData :=
  { seqInBlock := a.txNum
    writeSet := some { dataModel := 0, nsPvtRwset := a.nsPvtRwset ++ a.currentNsWSet.toList } }

end TxPvtdataAssembler

/-! ## One block -/

/-- The state of the loop over the entries of a block. Its `firstItr` is
`currentTxWsetAssembler = none`, and its current transaction number that of the
current assembler. -/
structure BlockAssembler where
  blockNum : UInt64
  blockPvtdata : List RetrievedTxPvtData
  currentTxWsetAssembler : Option TxPvtdataAssembler
  deriving DecidableEq

namespace BlockAssembler

def new (blockNum : UInt64) : BlockAssembler := ⟨blockNum, [], none⟩

def add (a : BlockAssembler) (dataKey : DataKey) (dataValue : CollectionPvtReadWriteSet) :
    BlockAssembler :=
  match a.currentTxWsetAssembler with
  | none =>
    { a with
      currentTxWsetAssembler :=
        some ((TxPvtdataAssembler.new a.blockNum dataKey.txNum).add dataKey.ns dataValue) }
  | some cur =>
    if dataKey.txNum ≠ cur.txNum then
      { a with
        blockPvtdata := a.blockPvtdata ++ [cur.getTxPvtdata]
        currentTxWsetAssembler :=
          some ((TxPvtdataAssembler.new a.blockNum dataKey.txNum).add dataKey.ns dataValue) }
    else { a with currentTxWsetAssembler := some (cur.add dataKey.ns dataValue) }

def finish (a : BlockAssembler) : List RetrievedTxPvtData :=
  a.blockPvtdata ++ (a.currentTxWsetAssembler.map TxPvtdataAssembler.getTxPvtdata).toList

end BlockAssembler

/-! ## The v1.1 format -/

section
variable (x : Externals)

/-- `V11Format`: nothing stands behind the height of the key. -/
def v11Format (datakeyBytes : Bytes) : Except Err Bool :=
  match datakeyBytes with
  | [] => .error (.panic "slice bounds out of range")
  | _ :: tail => match Height.newHeightFromBytes x.orderPreservingVarUint64 tail with
    | .error e => .error (.plain e)
    | .ok (_, n) => .ok (tail.drop n).isEmpty

/-- `v11TrimPvtWSet`: a nil result where the filter leaves nothing. -/
def v11TrimPvtWSet (pvtWSet : TxPvtReadWriteSet) (filter : PvtNsCollFilter) :
    Option TxPvtReadWriteSet :=
  match filter with
  | none => some pvtWSet
  | some has =>
    let filteredNsRwSet := pvtWSet.nsPvtRwset.filterMap fun ns =>
      match ns.collectionPvtRwset.filter fun coll =>
          has ns.namespaceName coll.collectionName with
      | [] => none
      | filteredCollRwSet => some ⟨ns.namespaceName, filteredCollRwSet⟩
    if filteredNsRwSet.isEmpty then none else some ⟨pvtWSet.dataModel, filteredNsRwSet⟩

/-- `V11DecodeKV`, with `v11DecodePK`. -/
def v11DecodeKV (k v : Bytes) (filter : PvtNsCollFilter) : Except Err RetrievedTxPvtData :=
  match k with
  | [] => .error (.panic "slice bounds out of range")
  | _ :: tail => match Height.newHeightFromBytes x.orderPreservingVarUint64 tail with
    | .error e => .error (.plain e)
    | .ok (height, _) => match x.txPvtRwset.unmarshal v with
      | .error e => .error (.plain e)
      | .ok pvtWSet => .ok ⟨height.txNum, v11TrimPvtWSet pvtWSet filter⟩

/-- `V11RetrievePvtdata`, which is handed the document's keys as they are. -/
def v11RetrievePvtdata (pvtDataResults : GoMap GoString Bytes) (filter : PvtNsCollFilter) :
    Except Err (List RetrievedTxPvtData) :=
  collect (fun p => v11DecodeKV x p.1 p.2 filter) pvtDataResults.toList

/-! ## The loop over a document -/

variable (btlPolicy : BtlPolicy) (filter : PvtNsCollFilter) (lastCommittedBlock : UInt64)

/-- `checkIsExpired` of the store: whether the entry is left out, as expired or by
the filter. -/
def checkIsExpired (dataKey : DataKey) : Except Err Bool :=
  match isExpired btlPolicy dataKey.toNsCollBlk lastCommittedBlock with
  | .error e => .error e
  | .ok expired => .ok (expired || !passesFilter dataKey filter)

/-- `blockPvtDataAssembler.assembleKeyValue`. -/
def assembleKeyValue (a : BlockAssembler) (dataKeyBytes dataValueBytes : Bytes) :
    Except Err BlockAssembler :=
  match decodeDatakey x dataKeyBytes with
  | .error e => .error e
  | .ok dataKey => match checkIsExpired btlPolicy filter lastCommittedBlock dataKey with
    | .error e => .error e
    | .ok true => .ok a
    | .ok false => match decodeDataValue x dataValueBytes with
      | .error e => .error e
      | .ok dataValue => .ok (a.add dataKey dataValue)

/-- The loop of `assemble` over the sorted keys. A key in the v1.1 format hands the
whole document over to `v11RetrievePvtdata`. -/
def assembleLoop (results : GoMap GoString Bytes) :
    BlockAssembler → List GoString → Except Err (List RetrievedTxPvtData)
  | a, [] => .ok a.finish
  | a, key :: keys => match hexDecode key with
    | .error e => .error (.plain e)
    | .ok dataKeyBytes => match v11Format x dataKeyBytes with
      | .error e => .error e
      | .ok true => v11RetrievePvtdata x results filter
      | .ok false =>
        match assembleKeyValue x btlPolicy filter lastCommittedBlock a dataKeyBytes
            ((results.lookup key).getD []) with
        | .error e => .error e
        | .ok a' => assembleLoop results a' keys

/-- `blockPvtDataAssembler.assemble`. -/
def assemble (results : GoMap GoString Bytes) (blockNum : UInt64) :
    Except Err (List RetrievedTxPvtData) :=
  assembleLoop x btlPolicy filter lastCommittedBlock results (BlockAssembler.new blockNum)
    (results.keys.insertionSort (fun a b => a ≤ b))

end

end FabricPeerExt.PvtData
