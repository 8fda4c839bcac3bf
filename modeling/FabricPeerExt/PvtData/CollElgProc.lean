/-
FabricPeerExt.PvtData.CollElgProc — the eligibility processor, `common/collelgproc.go`.

It gives up the purger lock after each full batch, while its iterators go on reading the index as
it was when they were opened; so it is modelled step by step (`ProcRun.step`).
-/
import FabricPeerExt.PvtData.KvEncoding

namespace FabricPeerExt.PvtData

open Lib

/-- An event the processor is working on: its key, its block, and the collections
whose entries are not converted yet. -/
structure ElgEvent where
  key : Bytes
  blkNum : UInt64
  colls : List (GoString × GoString)
  deriving DecidableEq

/-- What the goroutine remembers between two steps. -/
structure ProcRun where
  /-- what the event iterator has still to deliver -/
  events : List (Bytes × Bytes)
  event : Option ElgEvent
  /-- what the iterator over the entries of a collection has still to deliver -/
  entries : List (Bytes × Bytes)
  batch : Batch
  /-- between two batches, without the purger lock -/
  asleep : Bool
  deriving DecidableEq

/-- The goroutine: waiting for a notification, working, or ended by a panic. -/
inductive ProcState where
  | idle
  | running (r : ProcRun)
  | panicked
  deriving DecidableEq

namespace ProcState

def locked : ProcState → Bool
  | .running r => !r.asleep
  | _ => false

end ProcState

section
variable (x : Externals)

/-- `ProcessCollsEligibilityEnabled`: the batch with the event of a block. -/
def processCollsEligibilityEnabled (missingKeysIndexDB : Kv) (committingBlk : UInt64)
    (nsCollMap : CollElgInfo) : Except Err Kv :=
  match encodeCollElgVal x nsCollMap with
  | .error e => .error e
  | .ok val =>
    .ok (Batch.apply [.put (encodeCollElgKey x committingBlk) val] missingKeysIndexDB)

namespace ProcRun

def start (db : Kv) : ProcRun :=
  { events := scan db (createRangeScanKeysForCollElg x).1 (createRangeScanKeysForCollElg x).2
    event := none
    entries := []
    batch := []
    asleep := false }

/-- One entry: it moves to the prioritised group with its bitmap. A batch that has
grown too long is written, and the lock is given up. -/
def convert (maxBatchSize : Nat) (db : Kv) (r : ProcRun) (entry : Bytes × Bytes)
    (rest : List (Bytes × Bytes)) : Kv × ProcState :=
  match decodeInelgMissingDataKey x entry.1 with
  | .error _ => (db, .panicked)
  | .ok modifiedKey =>
    let batch := r.batch ++
      [.delete entry.1, .put (encodeElgPrioMissingDataKey x modifiedKey) entry.2]
    if maxBatchSize < batch.length then
      (batch.apply db, .running { r with entries := rest, batch := [], asleep := true })
    else (db, .running { r with entries := rest, batch := batch })

/-- The next event. An event that cannot be decoded is passed over. -/
def nextEvent (db : Kv) (r : ProcRun) (event : Bytes × Bytes) (rest : List (Bytes × Bytes)) :
    Kv × ProcState :=
  match decodeCollElgKey x event.1 with
  | .error _ => (db, .panicked)
  | .ok blkNum => match decodeCollElgVal x event.2 with
    | .error _ => (db, .running { r with events := rest })
    | .ok info =>
      let colls := info.toList.flatMap fun p => p.2.map fun coll => (p.1, coll)
      (db, .running { r with events := rest, event := some ⟨event.1, blkNum, colls⟩ })

/-- The next thing the loops of `processCollElgEvents` do: an entry of the current
collection, else the next collection of the current event, else the end of the event,
else the next event, else the end. -/
def step (maxBatchSize : Nat) (db : Kv) (r : ProcRun) : Kv × ProcState :=
  match r.entries with
  | entry :: rest => convert x maxBatchSize db r entry rest
  | [] => match r.event with
    | some ⟨key, blkNum, (ns, coll) :: colls⟩ =>
      let range := createRangeScanKeysForInelgMissingData x blkNum ns coll
      (db, .running
        { r with event := some ⟨key, blkNum, colls⟩, entries := scan db range.1 range.2 })
    | some ⟨key, _, []⟩ =>
      (db, .running { r with event := none, batch := r.batch ++ [.delete key] })
    | none => match r.events with
      | event :: rest => nextEvent x db r event rest
      | [] => (r.batch.apply db, .idle)

end ProcRun

end

end FabricPeerExt.PvtData
