/-
FabricPeerExt.LedgerConfig.ServiceTheorems — what the handlers are told of a transaction.

The key of an index entry ends with a joined key and so has six parts: the handlers are called for
it too.
-/
import FabricPeerExt.LedgerConfig.Service
import FabricPeerExt.LedgerConfig.ManagerTheorems

namespace FabricPeerExt.LedgerConfig

open Lib
open PvtData (GoString Err)
open Collections (KVWrite)

/-! ## Transactions -/

/-- The writes of a transaction, in the order they are made. All its operations read the
committed state; it fails with the first that fails. -/
def transaction (registry : Registry) (store : Kv) (ops : List Op) : Except Err Batch :=
  match collect (fun op => op.writes registry store) ops with
  | .error e => .error e
  | .ok writes => .ok writes.flatten

def writeSet (writes : Batch) : GoMap Bytes BatchOp :=
  GoMap.insertAll ∅ (writes.map fun op => (op.key, op))

def committedWrites (order : RangeOrder (Bytes × BatchOp)) (writes : Batch) : List KVWrite :=
  (order.order (writeSet writes).toList).map fun p => toKVWrite p.2

def Op.changes (registry : Registry) (store : Kv) : Op → Except Err (List KeyValue)
  | .save txID cfg orders =>
    match newKeyValueMap cfg txID with
    | .error e => .error e
    | .ok configMap =>
      match validateMap registry (orders.validating.order configMap.toList) with
      | .error e => .error (.wrap "validation error" e)
      | .ok _ => .ok ((orders.saving.order configMap.toList).map fun kv => ⟨kv.1, some kv.2⟩)
  | .delete criteria =>
    match query store criteria with
    | .error e => .error e
    | .ok configs => .ok (configs.map fun kv => ⟨kv.key, none⟩)

def changes (registry : Registry) (store : Kv) (ops : List Op) : Except Err (List KeyValue) :=
  match collect (fun op => op.changes registry store) ops with
  | .error e => .error e
  | .ok kvs => .ok kvs.flatten

def finalChanges (kvs : List KeyValue) : GoMap Key (Option Value) :=
  GoMap.insertAll ∅ (kvs.map fun kv => (kv.key, kv.value))

/-- What the writes of a transaction tell the handlers and do to the cache: each of `n`
handlers is called once for each key that is changed, with its new value, and not otherwise;
and the cache gets no other keys. -/
structure Notified (n : Nat) (cache : GoMap Key Value) (kvs : List KeyValue)
    (published : List KVWrite) : Prop where
  calls : ∀ handler : Fin n,
    (callsTo handler (listen n (ConfigService.publishWrites ⟨cache, []⟩ published).updateChan)).Perm
      ((finalChanges kvs).toList.map fun p => ⟨p.1, p.2⟩)
  cache : ∀ k ∈ (ConfigService.publishWrites ⟨cache, []⟩ published).cache,
    k ∈ cache ∨ k ∈ finalChanges kvs

/-! ## Changes and writes -/

def writesOf (kv : KeyValue) : Batch :=
  match kv.value with
  | some v => layout.puts kv.key v
  | none => layout.deletes kv.key

variable {kvs : List KeyValue} {registry : Registry}

/-- The changes of a `Save` are the values of its map, which is valid. -/
theorem changes_save_ok {store : Kv} {txID : GoString} {cfg : Config} {orders : SaveOrders}
    (h : (Op.save txID cfg orders).changes registry store = .ok kvs) :
    ∃ configMap valid, newKeyValueMap cfg txID = .ok configMap ∧
      validateMap registry (orders.validating.order configMap.toList) = .ok valid ∧
      kvs = (orders.saving.order configMap.toList).map fun kv => ⟨kv.1, some kv.2⟩ := by
  rw [Op.changes] at h
  cases hmap : newKeyValueMap cfg txID with
  | error e => rw [hmap] at h; cases h
  | ok configMap =>
    rw [hmap] at h
    dsimp only at h
    cases hval : validateMap registry (orders.validating.order configMap.toList) with
    | error e => rw [hval] at h; cases h
    | ok valid =>
      rw [hval] at h
      exact ⟨configMap, valid, rfl, hval, (Except.ok.inj h).symm⟩

theorem writes_of_changes {store : Kv} {op : Op} (h : op.changes registry store = .ok kvs) :
    op.writes registry store = .ok (kvs.flatMap writesOf) := by
  cases op with
  | save txID cfg orders =>
    obtain ⟨configMap, valid, hmap, hval, rfl⟩ := changes_save_ok h
    rw [Op.writes, saveConfig, hmap]
    dsimp only
    rw [hval, List.flatMap_map]
    rfl
  | delete criteria =>
    rw [Op.changes] at h
    cases hq : query store criteria with
    | error e => rw [hq] at h; cases h
    | ok configs =>
      rw [hq] at h
      obtain rfl := Except.ok.inj h
      rw [Op.writes, deleteConfig, hq, List.flatMap_map]
      rfl

theorem transaction_of_changes {store : Kv} {ops : List Op}
    (h : changes registry store ops = .ok kvs) :
    transaction registry store ops = .ok (kvs.flatMap writesOf) := by
  have hcollect : ∀ {ops : List Op} {kvss : List (List KeyValue)},
      collect (fun op => op.changes registry store) ops = .ok kvss →
      collect (fun op => op.writes registry store) ops =
        .ok (kvss.map fun kvs => kvs.flatMap writesOf) := by
    intro ops
    induction ops with
    | nil => intro kvss h; cases h; rfl
    | cons op ops ih =>
      intro kvss h
      obtain ⟨kvs, rest, hop, hops, rfl⟩ := collect_cons_ok.mp h
      exact collect_cons_ok.mpr ⟨_, _, writes_of_changes hop, ih hops, rfl⟩
  have hflat : ∀ kvss : List (List KeyValue),
      (kvss.map fun kvs => kvs.flatMap writesOf).flatten = kvss.flatten.flatMap writesOf := by
    intro kvss
    induction kvss with
    | nil => rfl
    | cons kvs kvss ih => simp [ih]
  rw [changes] at h
  cases hc : collect (fun op => op.changes registry store) ops with
  | error e => rw [hc] at h; cases h
  | ok kvss =>
    rw [hc] at h
    obtain rfl := Except.ok.inj h
    rw [transaction, hcollect hc, ← hflat]

/-- Every write of the manager is taken for the update of a configuration key. -/
theorem exists_notification {op : BatchOp} (h : op ∈ kvs.flatMap writesOf) :
    ∃ kv, notification (toKVWrite op) = some kv ∧ unmarshalKey op.key = .ok kv.key := by
  obtain ⟨⟨k, value⟩, -, hop⟩ := List.mem_flatMap.mp h
  obtain ⟨kdata, hdata⟩ : ∃ k', unmarshalKey (marshalKey k) = .ok k' :=
    exists_unmarshalKey (by rw [count_marshalKey]; omega)
  obtain ⟨kindex, hindex⟩ := exists_unmarshalKey_indexKey k
  cases value with
  | some v =>
    simp only [writesOf, Layout.puts, layout, List.map_cons, List.map_nil, List.mem_cons,
      List.not_mem_nil, or_false] at hop
    rcases hop with rfl | rfl
    · refine ⟨⟨kdata, some v.coerce⟩, ?_, hdata⟩
      simp [notification, toKVWrite, hdata, unmarshalValue_marshalValue]
    · refine ⟨⟨kindex, some emptyValue⟩, ?_, hindex⟩
      have hread : unmarshalValue indexValue = some emptyValue := rfl
      simp [notification, toKVWrite, hindex, hread]
  | none =>
    simp only [writesOf, Layout.deletes, layout, List.map_cons, List.map_nil, List.mem_cons,
      List.not_mem_nil, or_false] at hop
    rcases hop with rfl | rfl
    · exact ⟨⟨kdata, none⟩, by simp [notification, toKVWrite, hdata], hdata⟩
    · exact ⟨⟨kindex, none⟩, by simp [notification, toKVWrite, hindex], hindex⟩

/-- The last write to a key that is written is published. -/
theorem exists_mem_committedWrites {writes : Batch} {order : RangeOrder (Bytes × BatchOp)}
    {op : BatchOp} (h : op ∈ writes) :
    ∃ op' ∈ writes, op'.key = op.key ∧ toKVWrite op' ∈ committedWrites order writes := by
  cases hl : (writeSet writes).lookup op.key with
  | none =>
    rw [writeSet, GoMap.lookup_insertAll, Option.or_eq_none_iff, GoMap.lastValue_eq_none,
      List.map_map] at hl
    exact absurd (List.mem_map.mpr ⟨op, h, rfl⟩) hl.1
  | some op' =>
    have hmem := hl
    rw [writeSet, GoMap.lookup_insertAll, AList.lookup_empty, Option.or_none] at hmem
    obtain ⟨op'', hop'', heq⟩ := List.mem_map.mp (GoMap.mem_of_lastValue hmem)
    obtain ⟨hkey, rfl⟩ := Prod.mk.inj heq
    refine ⟨op'', hop'', hkey, List.mem_map.mpr ⟨(op.key, op''), ?_, rfl⟩⟩
    exact (order.perm _).mem_iff.mpr (GoMap.mem_toList.mpr hl)

/-- If the handlers are only told of keys that are changed, nothing is. -/
theorem eq_nil_of_notified {cache : GoMap Key Value} {order : RangeOrder (Bytes × BatchOp)}
    (h : Notified 1 cache kvs (committedWrites order (kvs.flatMap writesOf))) : kvs = [] := by
  have hcalls := h.calls 0
  rw [callsTo_listen, updateChan_publishWrites, List.nil_append] at hcalls
  rw [← List.map_eq_nil_iff (f := KeyValue.key)]
  refine eq_nil_of_indexKey_closed fun k hk => ?_
  obtain ⟨kv, hkv, rfl⟩ := List.mem_map.mp hk
  -- The index entry of the key is published, and read as another key.
  obtain ⟨op, hop, hkey⟩ : ∃ op ∈ kvs.flatMap writesOf, op.key = indexKey kv.key := by
    obtain ⟨k, value⟩ := kv
    cases value with
    | some v =>
      exact ⟨.put (indexKey k) indexValue,
        List.mem_flatMap.mpr ⟨_, hkv, .tail _ (.head _)⟩, rfl⟩
    | none =>
      exact ⟨.delete (indexKey k), List.mem_flatMap.mpr ⟨_, hkv, .tail _ (.head _)⟩, rfl⟩
  obtain ⟨op', hop', hkey', hpub⟩ := @exists_mem_committedWrites _ order _ hop
  obtain ⟨kv', hnot, hread⟩ := exists_notification hop'
  rw [hkey', hkey] at hread
  have hmem := hcalls.mem_iff.mp (List.mem_filterMap.mpr ⟨_, hpub, hnot⟩)
  obtain ⟨p, hp, rfl⟩ := List.mem_map.mp hmem
  refine ⟨p.1, ?_, hread⟩
  have hlast := GoMap.mem_toList.mp hp
  rw [finalChanges, GoMap.lookup_insertAll, AList.lookup_empty, Option.or_none] at hlast
  obtain ⟨kv'', hkv'', heq⟩ := List.mem_map.mp (GoMap.mem_of_lastValue hlast)
  exact List.mem_map.mpr ⟨kv'', hkv'', congrArg Prod.fst heq⟩

/-- An operation changes nothing exactly if it is a deletion that finds nothing. -/
theorem changes_eq_nil_iff {store : Kv} {op : Op} :
    op.changes registry store = .ok [] ↔ ∃ c, op = .delete c ∧ query store c = .ok [] := by
  cases op with
  | save txID cfg orders =>
    refine iff_of_false (fun h => ?_) (by rintro ⟨c, hc, -⟩; cases hc)
    obtain ⟨configMap, valid, hmap, -, hempty⟩ := changes_save_ok h
    have hnil := List.map_eq_nil_iff.mp hempty.symm
    have hperm := orders.saving.perm configMap.toList
    rw [hnil] at hperm
    exact newKeyValueMap_ne_empty hmap (AList.ext (List.map_eq_nil_iff.mp hperm.symm.eq_nil))
  | delete criteria =>
    rw [Op.changes]
    cases hq : query store criteria with
    | error e => simp [hq]
    | ok configs => simp [hq]

/-- A transaction is notified right exactly if it writes nothing: all its operations are
deletions that find nothing. -/
theorem notified_iff (registry : Registry) (store : Kv) (ops : List Op) (cache : GoMap Key Value)
    (order : RangeOrder (Bytes × BatchOp)) {kvs : List KeyValue} {writes : Batch}
    (hkvs : changes registry store ops = .ok kvs)
    (hwrites : transaction registry store ops = .ok writes) :
    (∀ n, Notified n cache kvs (committedWrites order writes)) ↔
      ∀ op ∈ ops, ∃ c, op = .delete c ∧ query store c = .ok [] := by
  obtain rfl := Except.ok.inj ((transaction_of_changes hkvs).symm.trans hwrites)
  have hnil : kvs = [] ↔ ∀ op ∈ ops, ∃ c, op = .delete c ∧ query store c = .ok [] := by
    rw [changes] at hkvs
    cases hc : collect (fun op => op.changes registry store) ops with
    | error e => rw [hc] at hkvs; cases hkvs
    | ok kvss =>
      rw [hc] at hkvs
      obtain rfl := Except.ok.inj hkvs
      rw [List.flatten_eq_nil_iff]
      constructor
      · intro hall op hop
        obtain ⟨kvs, hk⟩ := collect_ok_of_mem hc hop
        rw [hall kvs ((mem_of_collect hc kvs).mpr ⟨op, hop, hk⟩)] at hk
        exact changes_eq_nil_iff.mp hk
      · intro hall kvs hk
        obtain ⟨op, hop, hk⟩ := (mem_of_collect hc kvs).mp hk
        exact Except.ok.inj (hk.symm.trans (changes_eq_nil_iff.mpr (hall op hop)))
  rw [← hnil]
  constructor
  · exact fun h => eq_nil_of_notified (h 1)
  · rintro rfl n
    have hpub : committedWrites order (([] : List KeyValue).flatMap writesOf) = [] := by
      have hperm := order.perm (writeSet []).toList
      have htoList : (writeSet []).toList = [] := rfl
      rw [htoList] at hperm
      rw [committedWrites, List.flatMap_nil, htoList, hperm.eq_nil]
      rfl
    rw [hpub]
    constructor
    · intro handler
      rw [callsTo_listen]
      exact List.Perm.refl _
    · exact fun k hk => .inl hk

/-- A deletion that finds nothing is notified right, and a saved application is not. -/
theorem notified_nothing : Notified 2 ∅ [] (committedWrites (.listed _) []) ∧
    ∃ kvs writes, changes [] ∅ [saveApps [97] [plainApp [98] [49] [99]]] = .ok kvs ∧
      transaction [] ∅ [saveApps [97] [plainApp [98] [49] [99]]] = .ok writes ∧
      ¬ ∀ n, Notified n ∅ kvs (committedWrites (.listed _) writes) := by
  refine ⟨(notified_iff [] ∅ [.delete (mspCriteria [97])] ∅ (.listed _) rfl rfl).mpr (fun _ hop =>
    ⟨mspCriteria [97], List.mem_singleton.mp hop, rfl⟩) 2, _, _, rfl, rfl, fun h => ?_⟩
  obtain ⟨c, hdelete, _⟩ := (notified_iff [] ∅ [saveApps [97] [plainApp [98] [49] [99]]] ∅
    (.listed _) rfl rfl).mp h _ List.mem_cons_self
  cases hdelete

/-- One saved application: the handler is called for the index entry, too, as for a key of
an MSP whose name starts with a NUL byte. -/
theorem index_notified : ∃ kvs writes,
    changes [] ∅ [saveApps [97] [plainApp [98] [49] [99]]] = .ok kvs ∧
    transaction [] ∅ [saveApps [97] [plainApp [98] [49] [99]]] = .ok writes ∧
    ¬ Notified 1 ∅ kvs (committedWrites (.listed _) writes) := by
  refine ⟨_, _, rfl, rfl, fun h => ?_⟩
  have hcalls := h.calls 0
  rw [callsTo_listen] at hcalls
  exact absurd hcalls.length_eq (by decide +kernel)

end FabricPeerExt.LedgerConfig
