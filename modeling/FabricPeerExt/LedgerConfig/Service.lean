/-
FabricPeerExt.LedgerConfig.Service — the configuration service,
`pkg/config/ledgerconfig/service/service.go`. Its channel of updates is a queue: what was sent and
not yet handed on.
-/
import FabricPeerExt.LedgerConfig.Manager
import FabricPeerExt.Collections.RwSets

namespace FabricPeerExt.LedgerConfig

open Lib
open PvtData (GoString Err)
open Collections (KVWrite)

/-- `ConfigService`: the cache, and the updates in the channel. -/
structure ConfigService where
  cache : GoMap Key Value
  updateChan : List KeyValue

def errConfigNotFound : Err := .plain "config not found"

def toKVWrite : BatchOp → KVWrite
  | .put key value => ⟨key, false, value⟩
  | .delete key => ⟨key, true, []⟩

/-- `ConfigService.load`. -/
def load (ledger : Kv) (key : Key) : Except Err Value :=
  match get ledger key with
  | none => .error errConfigNotFound
  | some value => .ok value

/-- `handleKeyUpdate`, with the error that it returns; the text of a JSON error is not
modelled. -/
def ConfigService.handleKeyUpdate (s : ConfigService) (kvWrite : KVWrite) :
    ConfigService × Option Err :=
  match unmarshalKey kvWrite.key with
  | .error _ => (s, none)
  | .ok key =>
    if kvWrite.isDelete then (⟨s.cache.erase key, s.updateChan ++ [⟨key, none⟩]⟩, none)
    else match unmarshalValue kvWrite.value with
      | none => (s, some (.plain "error unmarshalling config value"))
      | some value =>
        (⟨s.cache.insert key value, s.updateChan ++ [⟨key, some value⟩]⟩, none)

/-- The writes of a block handed to the service. The publisher logs an error and goes on. -/
def ConfigService.publishWrites (s : ConfigService) (writes : List KVWrite) : ConfigService :=
  writes.foldl (fun s w => (s.handleKeyUpdate w).1) s

/-- `ConfigService.notify`. -/
def notify (n : Nat) (kv : KeyValue) : List (Fin n × KeyValue) :=
  (List.finRange n).map fun handler => (handler, kv)

/-- `ConfigService.listen`. -/
def listen (n : Nat) (updateChan : List KeyValue) : List (Fin n × KeyValue) :=
  updateChan.flatMap (notify n)

/-! ## What a write does -/

def notification (w : KVWrite) : Option KeyValue :=
  match unmarshalKey w.key with
  | .error _ => none
  | .ok key =>
    if w.isDelete then some ⟨key, none⟩
    else (unmarshalValue w.value).map fun value => ⟨key, some value⟩

def updateCache (cache : GoMap Key Value) (kv : KeyValue) : GoMap Key Value :=
  match kv.value with
  | none => cache.erase kv.key
  | some value => cache.insert kv.key value

theorem handleKeyUpdate_fst (s : ConfigService) (w : KVWrite) :
    (s.handleKeyUpdate w).1 = match notification w with
      | none => s
      | some kv => ⟨updateCache s.cache kv, s.updateChan ++ [kv]⟩ := by
  rw [ConfigService.handleKeyUpdate, notification]
  cases unmarshalKey w.key with
  | error e => rfl
  | ok key =>
    cases hd : w.isDelete with
    | true => rfl
    | false =>
      cases hv : unmarshalValue w.value with
      | none => simp
      | some v => simp [updateCache]

/-- The channel gets the updates of the writes in order. -/
theorem updateChan_publishWrites (s : ConfigService) (writes : List KVWrite) :
    (s.publishWrites writes).updateChan = s.updateChan ++ writes.filterMap notification := by
  induction writes generalizing s with
  | nil => simp [ConfigService.publishWrites]
  | cons w writes ih =>
    have hstep : s.publishWrites (w :: writes) = (s.handleKeyUpdate w).1.publishWrites writes := rfl
    rw [hstep, ih, handleKeyUpdate_fst]
    cases hn : notification w with
    | none => simp [hn]
    | some kv => simp [hn]

def callsTo {n : Nat} (handler : Fin n) (calls : List (Fin n × KeyValue)) : List KeyValue :=
  (calls.filter fun call => call.1 = handler).map Prod.snd

/-- Every handler is called with all updates, in order. -/
theorem callsTo_listen {n : Nat} (handler : Fin n) (updateChan : List KeyValue) :
    callsTo handler (listen n updateChan) = updateChan := by
  have hone : ∀ kv, callsTo handler (notify n kv) = [kv] := by
    intro kv
    have hfilter : (List.finRange n).filter (fun i => i = handler) = [handler] := by
      rw [List.filter_eq, List.count_eq_one_of_mem (List.nodup_finRange n)
        (List.mem_finRange handler)]
      rfl
    rw [callsTo, notify, List.filter_map, List.map_map]
    simp [Function.comp_def, hfilter]
  have happend : ∀ a b : List (Fin n × KeyValue),
      callsTo handler (a ++ b) = callsTo handler a ++ callsTo handler b := by
    intro a b
    rw [callsTo, List.filter_append, List.map_append, callsTo, callsTo]
  induction updateChan with
  | nil => rfl
  | cons kv chan ih =>
    have hcons : listen n (kv :: chan) = notify n kv ++ listen n chan := rfl
    rw [hcons, happend, hone, ih]
    rfl

end FabricPeerExt.LedgerConfig
