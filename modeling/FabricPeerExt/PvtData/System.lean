/-
FabricPeerExt.PvtData.System — the store at work: `Op` lists everything that can happen next. A
purge and a reconciliation wait while the processor holds the purger lock; a commit takes no lock.
-/
import FabricPeerExt.PvtData.CdbStore
import FabricPeerExt.PvtData.CollElgProc

namespace FabricPeerExt.PvtData

open Lib

/-- Everything that can happen next. -/
inductive Op where
  | commit (blockNum : UInt64) (pvtData : List TxPvtData) (missing : TxMissingPvtDataMap)
  | commitPvtDataOfOldBlocks (blocksPvtData : GoMap UInt64 (List TxPvtData))
      (unreconciled : MissingPvtDataInfo)
  /-- A purge that a commit has scheduled gets to run. -/
  | purge (maxBlkNum : UInt64)
  | processCollsEligibilityEnabled (committingBlk : UInt64) (nsCollMap : CollElgInfo)
  /-- The processor is notified and takes the lock. -/
  | procStart
  | procStep
  /-- The processor takes the lock again after a batch. -/
  | procWake
  | resetLastUpdatedOldBlocksList
  | reopen

/-- The store, the purges to come, and the processor. -/
structure Sys where
  store : Store
  scheduledPurges : List UInt64
  proc : ProcState

namespace Sys

def init : Sys := { store := Store.new, scheduledPurges := [], proc := .idle }

section
variable (x : Externals) (btlPolicy : BtlPolicy) (conf : Conf)

/-- `store.Commit` with the purge that it schedules. -/
def commit (sys : Sys) (blockNum : UInt64) (pvtData : List TxPvtData)
    (missing : TxMissingPvtDataMap) : Sys :=
  match sys.store.commit x btlPolicy conf blockNum pvtData missing with
  | (store, .ok ()) =>
    { sys with
      store := store
      scheduledPurges :=
        if Store.purgeScheduled conf blockNum then sys.scheduledPurges ++ [blockNum]
        else sys.scheduledPurges }
  | (store, .error _) => { sys with store := store }

def purge (sys : Sys) (maxBlkNum : UInt64) : Sys :=
  if sys.proc.locked || !sys.scheduledPurges.contains maxBlkNum then sys
  else { sys with
         store := (sys.store.purgeExpiredData x conf maxBlkNum).1
         scheduledPurges := sys.scheduledPurges.erase maxBlkNum }

def procStep (sys : Sys) : Sys :=
  match sys.proc with
  | .running r =>
    if r.asleep then sys
    else
      let next := r.step x conf.maxBatchSize sys.store.missingKeysIndexDB
      { sys with
        store := { sys.store with missingKeysIndexDB := next.1 }
        proc := next.2 }
  | _ => sys

def step (sys : Sys) : Op → Sys
  | .commit blockNum pvtData missing => sys.commit x btlPolicy conf blockNum pvtData missing
  | .commitPvtDataOfOldBlocks blocksPvtData unreconciled =>
    if sys.proc.locked then sys
    else { sys with
           store :=
            (sys.store.commitPvtDataOfOldBlocks x btlPolicy blocksPvtData unreconciled).1 }
  | .purge maxBlkNum => sys.purge x conf maxBlkNum
  | .processCollsEligibilityEnabled committingBlk nsCollMap =>
    match processCollsEligibilityEnabled x sys.store.missingKeysIndexDB committingBlk
        nsCollMap with
    | .error _ => sys
    | .ok kv => { sys with store := { sys.store with missingKeysIndexDB := kv } }
  | .procStart =>
    match sys.proc with
    | .idle => { sys with proc := .running (ProcRun.start x sys.store.missingKeysIndexDB) }
    | _ => sys
  | .procStep => sys.procStep x conf
  | .procWake =>
    match sys.proc with
    | .running r => { sys with proc := .running { r with asleep := false } }
    | _ => sys
  | .resetLastUpdatedOldBlocksList =>
    { sys with store := sys.store.resetLastUpdatedOldBlocksList }
  | .reopen =>
    match sys.store.reopen x conf with
    | .error _ => sys
    | .ok store => { store := store, scheduledPurges := [], proc := .idle }

def after (ops : List Op) : Sys := run (step x btlPolicy conf) init ops

end

end Sys

end FabricPeerExt.PvtData
