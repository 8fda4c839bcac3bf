/-
FabricPeerExt.Blkstorage.Iterator — an iterator beside the goroutine that adds blocks,
`pkg/blkstorage/cdbblkstorage/blocks_itr.go`.

`AddBlock` and `Next` are cut into the steps between which the other one can run (`Phase`,
`Call`). The look at the checkpoint and the `Wait` after it are one step, as the lock is held.
-/
import FabricPeerExt.Blkstorage.BlockStore

namespace FabricPeerExt.Blkstorage

open Lib
open PvtData (Err)

/-! ## State -/

/-- `blocksItr`. -/
structure BlocksItr where
  maxBlockNumAvailable : UInt64
  blockNumToRetrieve : UInt64
  closeMarker : Bool

/-- `newBlockItr`, as `cdbBlockStore.RetrieveBlocks` calls it. -/
def newBlockItr (s : CdbBlockStore) (startBlockNum : UInt64) : BlocksItr :=
  ⟨s.cpInfo.lastBlockNumber, startBlockNum, false⟩

/-- How far a call of `AddBlock` has come. -/
inductive Phase where
  | validated
  | blockStored
  | txnsStored
  | cached
  | checkpointSaved
  | infoSet
  deriving DecidableEq

/-- A call of `AddBlock` under way. -/
structure Adding where
  block : Block
  fault : Option AddFault
  phase : Phase

/-- Where a call of `Next` is. -/
inductive Call where
  /-- There is no call. -/
  | idle
  /-- In `waitForBlock`, before the look at the checkpoint. -/
  | checking
  /-- In `waitForBlock`, in the `Wait` of the condition. -/
  | asleep
  /-- Behind the wait. -/
  | ready
  deriving DecidableEq

/-- The goroutine with the iterator: the argument of `RetrieveBlocks`, and what the calls of
`Next` returned so far. -/
structure Reader where
  startNum : UInt64
  itr : BlocksItr
  call : Call
  results : List (Except Err (Option Block))

/-- What both goroutines see. `accepted` only grows. -/
structure Shared where
  committer : Bool
  store : CdbBlockStore
  accepted : List Block
  adding : Option Adding
  reader : Option Reader

def Shared.start (committer : Bool) (store : CdbBlockStore) (accepted : List Block) : Shared :=
  ⟨committer, store, accepted, none, none⟩

/-! ## Steps -/

def Reader.wake (r : Reader) : Reader :=
  match r.call with
  | .asleep => { r with call := .checking }
  | _ => r

section
variable (x : Externals)

/-- `cdbBlockStore.AddBlock`, up to its first write. -/
def Shared.addBlock (st : Shared) (block : Block) (fault : Option AddFault) : Shared :=
  if st.committer then
    match st.store.validateBlock block with
    | .error _ => st
    | .ok () => { st with adding := some ⟨block, fault, .validated⟩ }
  else st

/-- The next step of a call of `AddBlock`; a failed write ends it. -/
def Shared.proceed (st : Shared) (a : Adding) : Shared :=
  let s := st.store
  match a.phase with
  | .validated => match storeBlock x a.fault s.db.blockStore a.block with
    | (blockStore, .error _) =>
      { st with store := { s with db := { s.db with blockStore } }, adding := none }
    | (blockStore, .ok ()) =>
      { st with
        store := { s with db := { s.db with blockStore } }
        adding := some { a with phase := .blockStored } }
  | .blockStored => match storeTransactions x a.fault s.db.txnStore a.block with
    | (txnStore, .error _) =>
      { st with store := { s with db := { s.db with txnStore } }, adding := none }
    | (txnStore, .ok ()) =>
      { st with
        store := { s with db := { s.db with txnStore } }
        adding := some { a with phase := .txnsStored } }
  | .txnsStored =>
    { st with
      store := { s with cache := s.cache.put x a.block }
      adding := some { a with phase := .cached } }
  | .cached =>
    match saveCurrentInfo x (CdbBlockStore.checkpointFault a.fault) s.db.blockStore
        (CdbBlockStore.checkpointOf x a.block.header) with
    | (blockStore, .error _) =>
      { st with store := { s with db := { s.db with blockStore } }, adding := none }
    | (blockStore, .ok ()) =>
      { st with
        store := { s with db := { s.db with blockStore } }
        adding := some { a with phase := .checkpointSaved } }
  | .checkpointSaved =>
    { st with
      store := { s with cache := { s.cache with bcInfo := infoOf x a.block.header } }
      adding := some { a with phase := .infoSet } }
  | .infoSet =>
    -- `updateCheckpoint`
    { st with
      store := { s with cpInfo := CdbBlockStore.checkpointOf x a.block.header }
      accepted := st.accepted ++ [a.block]
      adding := none
      reader := st.reader.map Reader.wake }

/-- `blocksItr.Next`, up to the wait. -/
def Reader.next (r : Reader) : Reader :=
  if r.itr.maxBlockNumAvailable < r.itr.blockNumToRetrieve then { r with call := .checking }
  else { r with call := .ready }

/-- `blocksItr.waitForBlock`: one look at the checkpoint. -/
def Reader.check (r : Reader) (cpInfo : CheckpointInfo) : Reader :=
  if cpInfo.lastBlockNumber < r.itr.blockNumToRetrieve ∧ r.itr.closeMarker = false then
    { r with call := .asleep }
  else
    { r with
      itr := { r.itr with maxBlockNumAvailable := cpInfo.lastBlockNumber }
      call := .ready }

def Reader.retrieve (r : Reader) (s : CdbBlockStore) : CdbBlockStore × Reader :=
  if r.itr.closeMarker then (s, { r with call := .idle, results := r.results ++ [.ok none] })
  else match s.retrieveBlockByNumber x r.itr.blockNumToRetrieve with
    | (s, .error e) => (s, { r with call := .idle, results := r.results ++ [.error e] })
    | (s, .ok nextBlock) =>
      (s, { r with
            itr := { r.itr with blockNumToRetrieve := r.itr.blockNumToRetrieve + 1 }
            call := .idle
            results := r.results ++ [.ok (some nextBlock)] })

/-- `blocksItr.Close`. -/
def Reader.close (r : Reader) : Reader :=
  { r with itr := { r.itr with closeMarker := true } }.wake

/-- The steps of the two goroutines. -/
inductive Step where
  | addBlock (block : Block) (fault : Option AddFault)
  | proceed
  | retrieveBlocks (startNum : UInt64)
  | next
  | check
  | retrieve
  | close

def Step.step (st : Shared) : Step → Shared
  | .addBlock block fault => match st.adding with
    | none => st.addBlock block fault
    | some _ => st
  | .proceed => match st.adding with
    | none => st
    | some a => st.proceed x a
  | .retrieveBlocks startNum => match st.reader with
    | none =>
      { st with reader := some ⟨startNum, newBlockItr st.store startNum, .idle, []⟩ }
    | some _ => st
  | .next => match st.reader with
    | none => st
    | some r => match r.call with
      | .idle => { st with reader := some r.next }
      | _ => st
  | .check => match st.reader with
    | none => st
    | some r => match r.call with
      | .checking => { st with reader := some (r.check st.store.cpInfo) }
      | _ => st
  | .retrieve => match st.reader with
    | none => st
    | some r => match r.call with
      | .ready =>
        let (store, reader) := r.retrieve x st.store
        { st with store, reader := some reader }
      | _ => st
  | .close => { st with reader := st.reader.map Reader.close }

end

end FabricPeerExt.Blkstorage
