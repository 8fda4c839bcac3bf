/-
FabricPeerExt.LedgerConfig.ManagerTheorems — what the configuration manager stores. It is meant to
be a map from keys to values (`Refines`).
-/
import FabricPeerExt.LedgerConfig.Manager
import FabricPeerExt.Lib.Layout

namespace FabricPeerExt.LedgerConfig

open Lib
open PvtData (GoString Err)
open Common

/-! ## §1 The layout -/

theorem nodup_names (k : Key) : [marshalKey k, indexKey k].Nodup := by
  simp [marshalKey_ne_indexKey k]

def layout : Layout Key Value where
  names k := [marshalKey k, indexKey k]
  pieces k v := [(marshalKey k, marshalValue v), (indexKey k, indexValue)]
  map_fst _ _ := rfl
  nodup := nodup_names

/-- A key that is stored apart from all others and is found again. -/
structure GoodKey (k : Key) : Prop where
  nulFree : k.NulFree
  plain : k.Plain
  mspID_lt : k.mspID < maxUnicodeRune

theorem separates_layout : layout.Separates GoodKey := by
  intro k k' s hk hk' hs hs'
  simp only [layout, List.mem_cons, List.not_mem_nil, or_false] at hs hs'
  rcases hs with rfl | rfl <;> rcases hs' with heq | heq
  · exact hk'.plain.eq_of_marshalKey_eq heq
  · exact absurd (heq ▸ head?_indexKey k') (head?_marshalKey hk.nulFree)
  · exact absurd (heq ▸ head?_indexKey k) (head?_marshalKey hk'.nulFree)
  · exact hk'.plain.eq_of_marshalKey_eq (indexKey_inj hk.nulFree hk'.nulFree heq).2

theorem save_eq (kvs : List (Key × Value)) :
    save kvs = kvs.flatMap fun kv => layout.puts kv.1 kv.2 := rfl

abbrev Laid (store : Kv) (m : KeyValueMap) : Prop := layout.Lays GoodKey store m

section
variable {store : Kv} {m : KeyValueMap} {s b : Bytes}

/-- An entry of the store is the value of a key or its index entry. -/
theorem entry_of_laid (h : Laid store m) (hs : store.lookup s = some b) :
    ∃ k v, m.lookup k = some v ∧ GoodKey k ∧
      (s = marshalKey k ∧ b = marshalValue v ∨ s = indexKey k ∧ b = indexValue) := by
  obtain ⟨k, v, hm, hp⟩ := (h.lookup_iff _ _).mp hs
  simp only [layout, List.mem_cons, Prod.mk.injEq, List.not_mem_nil, or_false] at hp
  exact ⟨k, v, hm, h.good k v hm, hp⟩

/-- The index entries are those whose names start with a NUL byte. -/
theorem indexEntry_of_laid (h : Laid store m) (hs : store.lookup s = some b)
    (hhead : s.head? = some 0) :
    ∃ k v, m.lookup k = some v ∧ GoodKey k ∧ s = indexKey k ∧ b = indexValue := by
  obtain ⟨k, v, hm, hgood, ⟨rfl, -⟩ | ⟨rfl, rfl⟩⟩ := entry_of_laid h hs
  · exact absurd hhead (head?_marshalKey hgood.nulFree)
  · exact ⟨k, v, hm, hgood, rfl, rfl⟩

/-- The name of an entry found by a scan starts with a NUL byte. -/
theorem head?_of_mem_scan {mspID : GoString}
    (h : (s, b) ∈ getStateByPartialCompositeKey store indexMspID [mspID]) :
    s.head? = some 0 := by
  obtain ⟨rest, heq, -⟩ := between_rangeKeys_iff.mp (mem_scan.mp h).2
  rw [heq, create_eq]
  rfl

end

/-! ## §2 Operations on a store that is laid out -/

def Criteria.Matches (c : Criteria) (k : Key) : Prop :=
  (c.mspID = [] ∨ k.mspID = c.mspID) ∧ (c.peerID = [] ∨ k.peerID = c.peerID) ∧
    (c.appName = [] ∨ k.appName = c.appName) ∧ (c.appVersion = [] ∨ k.appVersion = c.appVersion) ∧
    (c.componentName = [] ∨ k.componentName = c.componentName) ∧
    (c.componentVersion = [] ∨ k.componentVersion = c.componentVersion)

instance (c : Criteria) (k : Key) : Decidable (c.Matches k) :=
  inferInstanceAs (Decidable (_ ∧ _))

/-- The filter takes the results that match, all of them being of the MSP. -/
theorem mem_filterResults {r : List KeyValue} {c : Criteria} {kv : KeyValue}
    (hc : c.validate = .ok ()) (hmsp : kv.key.mspID = c.mspID) :
    kv ∈ filterResults r c ↔ kv ∈ r ∧ c.Matches kv.key := by
  obtain ⟨-, happ, hcomp⟩ := Criteria.validate_ok.mp hc
  by_cases hpeer : c.peerID = []
  · by_cases hname : c.appName = []
    · simp [filterResults, Criteria.Matches, hpeer, hname, happ hname, hcomp (happ hname).2, hmsp]
    · simp [filterResults, filterByApp, andFilter, mustHaveAppName, mayHaveAppVersion,
        mayHaveComponentName, mayHaveComponentVersion, mayHave, Criteria.Matches, hpeer, hname,
        hmsp]
  · simp [filterResults, filterByPeer, andFilter, mustHavePeerID, mayHaveAppName,
      mayHaveAppVersion, mayHaveComponentName, mayHaveComponentVersion, mayHave,
      Criteria.Matches, hpeer, hmsp]

theorem filterResults_sublist (r : List KeyValue) (c : Criteria) :
    (filterResults r c).Sublist r := by
  rw [filterResults]
  split
  · exact List.Sublist.refl r
  · split
    · exact List.filter_sublist
    · exact List.filter_sublist

theorem marshalValue_ne_nil (v : Value) : marshalValue v ≠ [] := by
  intro h
  have hread := unmarshalValue_marshalValue v
  rw [h] at hread
  cases hread

theorem getConfig_of_lookup {store : Kv} {k : Key} {v : Value}
    (h : store.lookup (marshalKey k) = some (marshalValue v)) :
    getConfig store k = some v.coerce := by
  rw [getConfig, h]
  exact (if_neg (marshalValue_ne_nil v)).trans (unmarshalValue_marshalValue v)

section
variable {store : Kv} {m : KeyValueMap}

variable {k : Key}

/-- A key reads what is left of its value. -/
theorem get_of_laid (h : Laid store m) (hk : k.NulFree) :
    get store k = (m.lookup k).map Value.coerce := by
  rw [get]
  cases hm : m.lookup k with
  | some v =>
    refine getConfig_of_lookup ((h.lookup_iff _ _).mpr ⟨k, v, hm, ?_⟩)
    exact List.mem_cons_self
  | none =>
    cases hs : store.lookup (marshalKey k) with
    | none => rw [getConfig, hs]; rfl
    | some b =>
      -- Nothing but the entry of the key itself has this name.
      obtain ⟨k', v', hm', hgood, ⟨heq, -⟩ | ⟨heq, -⟩⟩ := entry_of_laid h hs
      · rw [hgood.plain.eq_of_marshalKey_eq heq, hm'] at hm
        cases hm
      · exact absurd (heq ▸ head?_indexKey k') (head?_marshalKey hk)

theorem getKeyFromCompositeKey_indexKey (h : k.NulFree) :
    getKeyFromCompositeKey (indexKey k) = unmarshalKey (marshalKey k) := by
  have hsplit : split (indexKey k) = some (indexMspID, [k.mspID, marshalKey k]) := by
    refine split_create zero_notMem_indexMspID fun att hatt => ?_
    simp only [List.cons_append, List.nil_append, List.mem_cons, List.not_mem_nil,
      or_false] at hatt
    rcases hatt with rfl | rfl
    · exact h.mspID
    · exact zero_notMem_marshalKey h
  rw [getKeyFromCompositeKey, hsplit]
  rfl

section
variable (h : Laid store m)
include h

/-- What the scan over the index of an MSP finds. -/
theorem mem_indexScan_of_laid {mspID : GoString} (hmsp : 0 ∉ mspID)
    {s b : Bytes} : (s, b) ∈ getStateByPartialCompositeKey store indexMspID [mspID] ↔
      b = indexValue ∧ ∃ k v, m.lookup k = some v ∧ k.mspID = mspID ∧ s = indexKey k := by
  constructor
  · intro hmem
    obtain ⟨hs, hrange⟩ := mem_scan.mp hmem
    obtain ⟨k, v, hm, hgood, rfl, rfl⟩ := indexEntry_of_laid h hs (head?_of_mem_scan hmem)
    exact ⟨rfl, k, v, hm, ((between_indexKey_iff hgood.nulFree hmsp).mp hrange).1, rfl⟩
  · rintro ⟨rfl, k, v, hm, hk, rfl⟩
    have hgood := h.good k v hm
    have hentry : (indexKey k, indexValue) ∈ layout.pieces k v :=
      List.mem_cons_of_mem _ List.mem_cons_self
    exact mem_scan.mpr ⟨(h.lookup_iff _ _).mpr ⟨k, v, hm, hentry⟩,
      (between_indexKey_iff hgood.nulFree hmsp).mpr ⟨hk, hgood.mspID_lt⟩⟩

theorem getNext_indexKey {v : Value} (hm : m.lookup k = some v)
    (b : Bytes) : getNext store (indexKey k, b) = .ok ⟨k, some v.coerce⟩ := by
  have hgood := h.good k v hm
  have hget := get_of_laid h hgood.nulFree
  rw [get, hm] at hget
  rw [getNext, getKeyFromCompositeKey_indexKey hgood.nulFree, unmarshalKey_marshalKey hgood.plain]
  exact congrArg (fun value => Except.ok (KeyValue.mk k value)) hget

/-- A query returns the saved keys that match, each of them once. -/
theorem query_of_laid {c : Criteria} (hc : c.validate = .ok ())
    (hmsp : 0 ∉ c.mspID) : ∃ kvs, query store c = .ok kvs ∧ (kvs.map KeyValue.key).Nodup ∧
      ∀ kv, kv ∈ kvs ↔
        ∃ v, kv.value = some v.coerce ∧ m.lookup kv.key = some v ∧ c.Matches kv.key := by
  have hnext : ∀ pair ∈ getStateByPartialCompositeKey store indexMspID [c.mspID],
      ∃ k v, m.lookup k = some v ∧ k.mspID = c.mspID ∧ pair.1 = indexKey k ∧
        getNext store pair = .ok ⟨k, some v.coerce⟩ := by
    rintro ⟨s, b⟩ hpair
    obtain ⟨-, k, v, hm, hk, rfl⟩ := (mem_indexScan_of_laid h hmsp).mp hpair
    exact ⟨k, v, hm, hk, rfl, getNext_indexKey h hm b⟩
  obtain ⟨r, hr⟩ := collect_succeeds fun pair hpair => by
    obtain ⟨k, v, -, -, -, hget⟩ := hnext pair hpair
    exact ⟨_, hget⟩
  have hmem : ∀ kv, kv ∈ r ↔
      ∃ v, kv.value = some v.coerce ∧ m.lookup kv.key = some v ∧ kv.key.mspID = c.mspID := by
    intro kv
    rw [mem_of_collect hr]
    constructor
    · rintro ⟨pair, hpair, hkv⟩
      obtain ⟨k, v, hm, hk, -, hget⟩ := hnext pair hpair
      obtain rfl := Except.ok.inj (hget.symm.trans hkv)
      exact ⟨v, rfl, hm, hk⟩
    · rintro ⟨v, hv, hm, hk⟩
      refine ⟨(indexKey kv.key, indexValue), (mem_indexScan_of_laid h hmsp).mpr
        ⟨rfl, kv.key, v, hm, hk, rfl⟩, ?_⟩
      rw [getNext_indexKey h hm, ← hv]
  have hnodup : (r.map KeyValue.key).Nodup := by
    have hkeys : r.map (fun kv => indexKey kv.key) =
        (getStateByPartialCompositeKey store indexMspID [c.mspID]).map Prod.fst := by
      refine map_collect hr fun pair hpair kv hkv => ?_
      obtain ⟨k, v, -, -, hk, hget⟩ := hnext pair hpair
      obtain rfl := Except.ok.inj (hget.symm.trans hkv)
      exact hk.symm
    refine List.Nodup.of_map indexKey ?_
    rw [List.map_map]
    exact hkeys ▸ nodup_scan _ _ _
  have hmatches : ∀ kv ∈ r, (kv ∈ filterResults r c ↔ kv ∈ r ∧ c.Matches kv.key) := by
    intro kv hkv
    obtain ⟨v, -, -, hk⟩ := (hmem kv).mp hkv
    exact mem_filterResults hc hk
  have hsub := filterResults_sublist r c
  refine ⟨filterResults r c, ?_, hnodup.sublist (hsub.map _), fun kv => ?_⟩
  · rw [query, hc, hr]
  · constructor
    · intro hkv
      obtain ⟨v, hv, hm, -⟩ := (hmem kv).mp (hsub.subset hkv)
      exact ⟨v, hv, hm, ((hmatches kv (hsub.subset hkv)).mp hkv).2⟩
    · rintro ⟨v, hv, hm, hmatch⟩
      have hk : kv.key.mspID = c.mspID :=
        hmatch.1.resolve_left (Criteria.validate_ok.mp hc).1
      have hr : kv ∈ r := (hmem kv).mpr ⟨v, hv, hm, hk⟩
      exact (hmatches kv hr).mpr ⟨hr, hmatch⟩

/-- A deletion takes away the saved keys that match. -/
theorem laid_delete {c : Criteria} (hc : c.validate = .ok ())
    (hmsp : 0 ∉ c.mspID) : ∃ writes, deleteConfig store c = .ok writes ∧
      Laid (writes.apply store) (m.eraseAll (m.keys.filter c.Matches)) := by
  obtain ⟨kvs, hq, -, hmem⟩ := query_of_laid h hc hmsp
  refine ⟨(kvs.map KeyValue.key).flatMap layout.deletes, ?_, ?_⟩
  · rw [deleteConfig, hq, List.flatMap_map]
    rfl
  · have hkeys : ∀ k, k ∈ kvs.map KeyValue.key ↔ k ∈ m ∧ c.Matches k := by
      intro k
      rw [List.mem_map, ← AList.lookup_isSome, Option.isSome_iff_exists]
      constructor
      · rintro ⟨kv, hkv, rfl⟩
        obtain ⟨v, -, hm, hmatch⟩ := (hmem kv).mp hkv
        exact ⟨⟨v, hm⟩, hmatch⟩
      · rintro ⟨⟨v, hm⟩, hmatch⟩
        exact ⟨⟨k, some v.coerce⟩, (hmem _).mpr ⟨v, rfl, hm, hmatch⟩, rfl⟩
    have hgood : ∀ k ∈ kvs.map KeyValue.key, GoodKey k := by
      intro k hk
      obtain ⟨v, hv⟩ := Option.isSome_iff_exists.mp (AList.lookup_isSome.mpr ((hkeys k).mp hk).1)
      exact h.good k v hv
    refine (h.deleteAll separates_layout hgood).congr fun k => ?_
    simp only [GoMap.lookup_eraseAll, hkeys, List.mem_filter, AList.mem_keys, decide_eq_true_eq]

/-- Good keys are saved as in the map. -/
theorem laid_save {kvs : KeyValueMap}
    (hkvs : ∀ k v, kvs.lookup k = some v → GoodKey k) (order : RangeOrder (Key × Value)) :
    Laid ((save (order.order kvs.toList)).apply store) (m.insertAll kvs.toList) := by
  rw [save_eq]
  refine (h.putAll separates_layout fun kv hkv => ?_).congr fun k => ?_
  · exact hkvs kv.1 kv.2 (GoMap.mem_toList.mp ((order.perm _).mem_iff.mp hkv))
  · rw [GoMap.lookup_insertAll, GoMap.lookup_insertAll, GoMap.lastValue_perm (order.perm _),
      GoMap.lastValue_toList]

end

end

/-! ## §3 The map -/

def Op.applyMap (registry : Registry) (m : KeyValueMap) : Op → KeyValueMap
  | .save txID cfg orders =>
    match newKeyValueMap cfg txID with
    | .error _ => m
    | .ok configMap =>
      match validateMap registry (orders.validating.order configMap.toList) with
      | .error _ => m
      | .ok _ => m.insertAll configMap.toList
  | .delete criteria =>
    match criteria.validate with
    | .error _ => m
    | .ok _ => m.eraseAll (m.keys.filter criteria.Matches)

/-- The store is seen as the map. -/
structure Refines (store : Kv) (m : KeyValueMap) : Prop where
  get : ∀ k, k.NulFree → get store k = m.lookup k
  query : ∀ c, c.validate = .ok () → 0 ∉ c.mspID → ∃ kvs, queryConfig store c = .ok kvs ∧
    (kvs.map KeyValue.key).Nodup ∧
    ∀ kv, kv ∈ kvs ↔ ∃ v, kv.value = some v ∧ m.lookup kv.key = some v ∧ c.Matches kv.key
  index : ∀ k v, m.lookup k = some v → ∃! s,
    s ∈ store ∧ s.head? = some 0 ∧ getKeyFromCompositeKey s = .ok k

/-- The store beside the map it stands for. -/
structure Pair where
  store : Kv
  map : KeyValueMap

def Pair.step (registry : Registry) (p : Pair) (op : Op) : Pair :=
  ⟨op.apply registry p.store, op.applyMap registry p.map⟩

def Op.Saves (registry : Registry) (op : Op) (kvs : KeyValueMap) : Prop :=
  match op with
  | .save txID cfg orders => newKeyValueMap cfg txID = .ok kvs ∧
      validateMap registry (orders.validating.order kvs.toList) = .ok ()
  | .delete _ => False

def Op.NulFree (registry : Registry) (op : Op) : Prop :=
  (∀ kvs, op.Saves registry kvs → ∀ k v, kvs.lookup k = some v → k.NulFree) ∧
    ∀ c, op = .delete c → 0 ∉ c.mspID

/-- The keys that the operation saves have no `!` in their parts, and their MSP sorts before
U+10FFFF; the values are valid UTF-8. -/
def Op.Storable (registry : Registry) (op : Op) : Prop :=
  ∀ kvs, op.Saves registry kvs → ∀ k v, kvs.lookup k = some v →
    k.Plain ∧ k.mspID < maxUnicodeRune ∧ v.Valid

structure Held (p : Pair) : Prop where
  laid : Laid p.store p.map
  valid : ∀ k v, p.map.lookup k = some v → v.Valid

theorem held_empty : Held ⟨∅, ∅⟩ :=
  ⟨Layout.lays_empty _, fun k v hk => by simp at hk⟩

theorem Held.coerce {p : Pair} (h : Held p) {k : Key} {v : Value} (hm : p.map.lookup k = some v) :
    v.coerce = v := Value.coerce_eq_iff.mpr (h.valid k v hm)

theorem Held.refines {p : Pair} (h : Held p) : Refines p.store p.map where
  get k hk := by
    rw [get_of_laid h.laid hk]
    cases hm : p.map.lookup k with
    | none => rfl
    | some v => rw [Option.map_some, h.coerce hm]
  query c hc hmsp := by
    obtain ⟨kvs, hq, hnodup, hmem⟩ := query_of_laid h.laid hc hmsp
    refine ⟨kvs, ?_, hnodup, fun kv => ?_⟩
    · rw [queryConfig, if_neg (Criteria.validate_ok.mp hc).1, hq]
    · rw [hmem]
      refine exists_congr fun v => ?_
      constructor
      · rintro ⟨hv, hm, hmatch⟩
        exact ⟨h.coerce hm ▸ hv, hm, hmatch⟩
      · rintro ⟨hv, hm, hmatch⟩
        exact ⟨(h.coerce hm).symm ▸ hv, hm, hmatch⟩
  index k v hm := by
    have hgood := h.laid.good k v hm
    refine ⟨indexKey k, ⟨?_, head?_indexKey k, ?_⟩, ?_⟩
    · rw [← AList.lookup_isSome, (h.laid.lookup_iff _ _).mpr
        ⟨k, v, hm, List.mem_cons_of_mem _ List.mem_cons_self⟩]
      rfl
    · rw [getKeyFromCompositeKey_indexKey hgood.nulFree, unmarshalKey_marshalKey hgood.plain]
    · rintro s ⟨hs, hhead, hkey⟩
      obtain ⟨b, hb⟩ := Option.isSome_iff_exists.mp (AList.lookup_isSome.mpr hs)
      obtain ⟨k', v', -, hgood', rfl, -⟩ := indexEntry_of_laid h.laid hb hhead
      rw [getKeyFromCompositeKey_indexKey hgood'.nulFree,
        unmarshalKey_marshalKey hgood'.plain] at hkey
      rw [Except.ok.inj hkey]

section
variable {registry : Registry}

/-- What an operation does: it saves the entries of a configuration, it deletes by criteria
that pass their check, or it fails. -/
theorem Pair.step_cases (registry : Registry) (p : Pair) (op : Op) :
    (∃ kvs order, op.Saves registry kvs ∧ p.step registry op =
      ⟨(save (RangeOrder.order order kvs.toList)).apply p.store, p.map.insertAll kvs.toList⟩) ∨
    (∃ c, op = .delete c ∧ c.validate = .ok () ∧ p.step registry op =
      ⟨op.apply registry p.store, p.map.eraseAll (p.map.keys.filter c.Matches)⟩) ∨
    (∀ kvs, ¬ op.Saves registry kvs) ∧ p.step registry op = p := by
  cases op with
  | save txID cfg orders =>
    cases hmap : newKeyValueMap cfg txID with
    | error e =>
      refine .inr (.inr ⟨fun kvs hs => ?_, ?_⟩)
      · cases hmap.symm.trans hs.1
      · simp [Pair.step, Op.apply, Op.writes, saveConfig, Op.applyMap, hmap]
    | ok kvs =>
      cases hval : validateMap registry (orders.validating.order kvs.toList) with
      | error e =>
        refine .inr (.inr ⟨fun kvs' hs => ?_, ?_⟩)
        · obtain rfl := Except.ok.inj (hmap.symm.trans hs.1)
          cases hval.symm.trans hs.2
        · simp [Pair.step, Op.apply, Op.writes, saveConfig, Op.applyMap, hmap, hval]
      | ok _ =>
        refine .inl ⟨kvs, orders.saving, ⟨hmap, hval⟩, ?_⟩
        simp [Pair.step, Op.apply, Op.writes, saveConfig, Op.applyMap, hmap, hval]
  | delete c =>
    cases hc : c.validate with
    | error e =>
      refine .inr (.inr ⟨fun kvs hs => hs.elim, ?_⟩)
      simp [Pair.step, Op.apply, Op.writes, deleteConfig, query, Op.applyMap, hc]
    | ok _ =>
      refine .inr (.inl ⟨c, rfl, hc, ?_⟩)
      simp [Pair.step, Op.applyMap, hc]

theorem lookup_insertAll_toList (m kvs : KeyValueMap) (k : Key) :
    (m.insertAll kvs.toList).lookup k = (kvs.lookup k).or (m.lookup k) := by
  rw [GoMap.lookup_insertAll, GoMap.lastValue_toList]

variable {op : Op} {p : Pair}

/-- The step of the invariant. -/
theorem Held.step (h : Held p) (hnul : op.NulFree registry)
    (hop : op.Storable registry) : Held (p.step registry op) := by
  rcases p.step_cases registry op with ⟨kvs, order, hs, heq⟩ | ⟨c, rfl, hc, heq⟩ | ⟨-, heq⟩
  · rw [heq]
    refine ⟨laid_save h.laid (fun k v hk => ?_) order, fun k v hk => ?_⟩
    · obtain ⟨hplain, hmsp, -⟩ := hop kvs hs k v hk
      exact ⟨hnul.1 kvs hs k v hk, hplain, hmsp⟩
    · rw [lookup_insertAll_toList, Option.or_eq_some_iff] at hk
      rcases hk with hk | ⟨-, hk⟩
      · exact (hop kvs hs k v hk).2.2
      · exact h.valid k v hk
  · rw [heq]
    obtain ⟨writes, hw, hlaid⟩ := laid_delete h.laid hc (hnul.2 c rfl)
    refine ⟨?_, fun k v hk => h.valid k v (GoMap.lookup_of_lookup_eraseAll hk).1⟩
    simp only [Op.apply, Op.writes, hw]
    exact hlaid
  · rw [heq]
    exact h

/-- The entries of the index before a save and those it adds. -/
theorem exists_indexKey_of_lookup (h : Held p) {kvs : List (Key × Value)}
    (hnul : ∀ kv ∈ kvs, kv.1.NulFree) {s b : Bytes}
    (hs : ((save kvs).apply p.store).lookup s = some b) (hhead : s.head? = some 0) :
    ∃ k, k.NulFree ∧ s = indexKey k := by
  rcases Batch.of_lookup_apply hs with hs | hput
  · obtain ⟨k, v, -, hgood, hk, -⟩ := indexEntry_of_laid h.laid hs hhead
    exact ⟨k, hgood.nulFree, hk⟩
  · obtain ⟨kv, hkv, hput⟩ := List.mem_flatMap.mp hput
    simp only [addIndex, List.mem_cons, BatchOp.put.injEq, List.not_mem_nil, or_false] at hput
    rcases hput with ⟨rfl, -⟩ | ⟨rfl, -⟩
    · exact absurd hhead (head?_marshalKey (hnul kv hkv))
    · exact ⟨kv.1, hnul kv hkv, rfl⟩

/-- A key that is read from an index entry has no `!` in its parts. -/
theorem plain_of_getNext {store : Kv} {pair : Bytes × Bytes} {kv : KeyValue}
    (h : getNext store pair = .ok kv) : kv.key.Plain := by
  rw [getNext, getKeyFromCompositeKey] at h
  cases hsplit : split pair.1 with
  | none => rw [hsplit] at h; cases h
  | some parts =>
    rw [hsplit] at h
    dsimp only at h
    cases hlast : parts.2.getLast? with
    | none => rw [hlast] at h; cases h
    | some part =>
      rw [hlast] at h
      dsimp only at h
      cases hk : unmarshalKey part with
      | error e => rw [hk] at h; cases h
      | ok k =>
        rw [hk] at h
        obtain rfl := Except.ok.inj h
        exact plain_of_unmarshalKey hk

/-- A query returns only keys without `!`, and nothing for an MSP from U+10FFFF on. -/
theorem good_of_query {store : Kv} {c : Criteria} (hc : c.validate = .ok ()) (hmsp : 0 ∉ c.mspID)
    (hindex : ∀ s b, store.lookup s = some b → s.head? = some 0 →
      ∃ k, k.NulFree ∧ s = indexKey k)
    {kvs : List KeyValue} (hq : query store c = .ok kvs) {kv : KeyValue} (hkv : kv ∈ kvs) :
    kv.key.Plain ∧ c.mspID < maxUnicodeRune := by
  rw [query, hc] at hq
  cases hr : collect (getNext store)
      (getStateByPartialCompositeKey store indexMspID [c.mspID]) with
  | error e => rw [hr] at hq; cases hq
  | ok r =>
    rw [hr] at hq
    obtain rfl := Except.ok.inj hq
    have hkv : kv ∈ r := (filterResults_sublist r c).subset hkv
    obtain ⟨⟨s, b⟩, hpair, hnext⟩ := (mem_of_collect hr kv).mp hkv
    obtain ⟨hs, hrange⟩ := mem_scan.mp hpair
    constructor
    · exact plain_of_getNext hnext
    · obtain ⟨k, hk, rfl⟩ := hindex s b hs (head?_of_mem_scan hpair)
      obtain ⟨heq, hlt⟩ := (between_indexKey_iff hk hmsp).mp hrange
      exact heq ▸ hlt

def mspCriteria (mspID : GoString) : Criteria := ⟨mspID, [], [], [], [], []⟩

theorem validate_mspCriteria {mspID : GoString} (h : mspID ≠ []) :
    (mspCriteria mspID).validate = .ok () :=
  Criteria.validate_ok.mpr ⟨h, fun _ => ⟨rfl, rfl⟩, fun _ => rfl⟩

theorem Op.Saves.unique {kvs kvs' : KeyValueMap} (h : op.Saves registry kvs)
    (h' : op.Saves registry kvs') : kvs = kvs' := by
  cases op with
  | save txID cfg orders => exact Except.ok.inj (h.1.symm.trans h'.1)
  | delete c => exact h.elim

/-- What is saved has passed the check of keys. -/
theorem Op.Saves.mspID_ne_nil {kvs : KeyValueMap} (h : op.Saves registry kvs) {k : Key}
    {v : Value} (hk : kvs.lookup k = some v) : k.mspID ≠ [] := by
  cases op with
  | save txID cfg orders =>
    have hval := forEach_check.mp h.2 (k, v)
      ((orders.validating.perm _).mem_iff.mpr (GoMap.mem_toList.mpr hk))
    exact mspID_ne_nil_of_validate (key_validate_of_registry hval)
  | delete c => exact h.elim

/-- If the store is still seen as the map, the operation was storable. -/
theorem storable_of_refines (h : Held p) (hnul : op.NulFree registry)
    (hr : Refines (p.step registry op).store (p.step registry op).map) :
    op.Storable registry := by
  intro kvs hs
  rcases p.step_cases registry op with ⟨kvs', order, hs', heq⟩ | ⟨c, rfl, -⟩ | ⟨hno, -⟩
  · obtain rfl := hs'.unique hs
    rw [heq] at hr
    have hmap : ∀ k v, kvs'.lookup k = some v →
        (p.map.insertAll kvs'.toList).lookup k = some v := by
      intro k v hk
      rw [lookup_insertAll_toList, hk]
      rfl
    have hnul' : ∀ kv ∈ order.order kvs'.toList, kv.1.NulFree := by
      intro kv hkv
      exact hnul.1 kvs' hs kv.1 kv.2 (GoMap.mem_toList.mp ((order.perm _).mem_iff.mp hkv))
    have hkeys : ∀ k v, kvs'.lookup k = some v → k.Plain ∧ k.mspID < maxUnicodeRune := by
      -- The key is among the results of the query for its MSP.
      intro k v hk
      have hne := hs.mspID_ne_nil hk
      have hc := validate_mspCriteria hne
      have hmsp := (hnul.1 kvs' hs k v hk).mspID
      obtain ⟨r, hq, -, hmem⟩ := hr.query (mspCriteria k.mspID) hc hmsp
      rw [queryConfig] at hq
      replace hq := (if_neg hne).symm.trans hq
      have hkv : (⟨k, some v⟩ : KeyValue) ∈ r := (hmem _).mpr
        ⟨v, rfl, hmap k v hk, .inr rfl, .inl rfl, .inl rfl, .inl rfl, .inl rfl, .inl rfl⟩
      exact good_of_query hc hmsp (fun s b => exists_indexKey_of_lookup h hnul') hq hkv
    intro k v hk
    obtain ⟨hplain, hlt⟩ := hkeys k v hk
    refine ⟨hplain, hlt, ?_⟩
    -- All keys are good, so that the value read is what is left of the value.
    have hlaid := laid_save h.laid (fun k v hk =>
      (⟨hnul.1 kvs' hs k v hk, (hkeys k v hk).1, (hkeys k v hk).2⟩ : GoodKey k)) order
    have hget := hr.get k (hnul.1 kvs' hs k v hk)
    rw [get_of_laid hlaid (hnul.1 kvs' hs k v hk), hmap k v hk, Option.map_some] at hget
    exact Value.coerce_eq_iff.mp (Option.some.inj hget)
  · exact hs.elim
  · exact absurd hs (hno kvs)

end

/-- Over a run, the store is seen as the map in every state exactly if every operation is
storable. -/
theorem refines_iff (registry : Registry) (ops : List Op)
    (hnul : ∀ op ∈ ops, op.NulFree registry) :
    Meets (Pair.step registry)
        (fun p op => Refines (p.step registry op).store (p.step registry op).map) ⟨∅, ∅⟩ ops ↔
      ∀ op ∈ ops, op.Storable registry := by
  suffices hgen : ∀ (ops : List Op) (p : Pair), Held p → (∀ op ∈ ops, op.NulFree registry) →
      (Meets (Pair.step registry)
        (fun p op => Refines (p.step registry op).store (p.step registry op).map) p ops ↔
        ∀ op ∈ ops, op.Storable registry) by
    exact hgen ops ⟨∅, ∅⟩ held_empty hnul
  intro ops
  induction ops with
  | nil => intro p _ _; simp [Meets]
  | cons op ops ih =>
    intro p hp hnul
    obtain ⟨hop, hops⟩ := List.forall_mem_cons.mp hnul
    rw [List.forall_mem_cons]
    constructor
    · rintro ⟨hr, hm⟩
      have hst := storable_of_refines hp hop hr
      exact ⟨hst, (ih _ (hp.step hop hst) hops).mp hm⟩
    · rintro ⟨hst, hall⟩
      have hheld := hp.step hop hst
      exact ⟨hheld.refines, (ih _ hheld hops).mpr hall⟩

theorem nulFree_save {registry : Registry} {txID : GoString} {cfg : Config} {orders : SaveOrders}
    {kvs : KeyValueMap} (h : newKeyValueMap cfg txID = .ok kvs)
    (hall : ∀ kv ∈ kvs.toList, kv.1.NulFree) : Op.NulFree registry (.save txID cfg orders) := by
  constructor
  · intro kvs' hs k v hk
    obtain rfl := Except.ok.inj (h.symm.trans hs.1)
    exact hall (k, v) (GoMap.mem_toList.mpr hk)
  · intro c hc
    cases hc

def saveApps (mspID : GoString) (apps : List App) : Op :=
  .save [116] ⟨mspID, [], apps⟩ ⟨.listed _, .listed _⟩

def plainApp (appName version config : GoString) : App :=
  ⟨appName, version, [111], config, none, []⟩

theorem storable_save {registry : Registry} {txID : GoString} {cfg : Config} {orders : SaveOrders}
    {kvs : KeyValueMap} (h : newKeyValueMap cfg txID = .ok kvs)
    (hall : ∀ kv ∈ kvs.toList, kv.1.Plain ∧ kv.1.mspID < maxUnicodeRune ∧ kv.2.Valid) :
    Op.Storable registry (.save txID cfg orders) := by
  intro kvs' hs k v hk
  obtain rfl := Except.ok.inj (h.symm.trans hs.1)
  exact hall (k, v) (GoMap.mem_toList.mpr hk)

/-- Two applications are saved, one is saved again, and the other is deleted. -/
def savedAgain : List Op :=
  [saveApps [97] [plainApp [98] [49] [99], plainApp [100] [49] [101]],
    saveApps [97] [plainApp [98] [49] [102]], .delete ⟨[97], [], [100], [49], [], []⟩]

/-- The application that was saved again is left, with its new value. -/
theorem refines_saveApps :
    Meets (Pair.step []) (fun p op => Refines (p.step [] op).store (p.step [] op).map) ⟨∅, ∅⟩
      savedAgain ∧
    (run (Pair.step []) ⟨∅, ∅⟩ savedAgain).map =
      (∅ : KeyValueMap).insert ⟨[97], [], [98], [49], [], []⟩
        (newValue [116] [102] [111] none) := by
  have hvalid : ∀ config, validString config = true →
      (newValue [116] config [111] none).Valid := fun config h =>
    ⟨(by decide : validString [116] = true), (by decide : validString [111] = true), h,
      fun _ htags => nomatch htags⟩
  refine ⟨(refines_iff [] _ ?_).mpr ?_, rfl⟩
  · simp only [savedAgain, List.forall_mem_cons]
    refine ⟨nulFree_save rfl (by decide), nulFree_save rfl (by decide),
      ⟨fun _ h => h.elim, ?_⟩, by simp⟩
    rintro _ ⟨⟩
    decide
  · simp only [savedAgain, List.forall_mem_cons]
    refine ⟨storable_save rfl fun kv hkv => ?_, storable_save rfl fun kv hkv => ?_,
      fun _ h => h.elim, by simp⟩
    · rcases List.mem_pair.mp hkv with rfl | rfl
      · exact ⟨by decide, by decide, hvalid _ (by decide)⟩
      · exact ⟨by decide, by decide, hvalid _ (by decide)⟩
    · obtain rfl := List.mem_singleton.mp hkv
      exact ⟨by decide, by decide, hvalid _ (by decide)⟩

/-- Two keys that are written the same way; an MSP that no query finds; and a value that is
not valid UTF-8. -/
theorem not_refines_map :
    ¬ Meets (Pair.step []) (fun p op => Refines (p.step [] op).store (p.step [] op).map) ⟨∅, ∅⟩
      [saveApps [97] [plainApp [98, 33, 99] [49] [120], plainApp [98] [99, 33, 49] [121]]] ∧
    ¬ Meets (Pair.step []) (fun p op => Refines (p.step [] op).store (p.step [] op).map) ⟨∅, ∅⟩
      [saveApps maxUnicodeRune [plainApp [98] [49] [120]]] ∧
    ¬ Meets (Pair.step []) (fun p op => Refines (p.step [] op).store (p.step [] op).map) ⟨∅, ∅⟩
      [saveApps [97] [plainApp [98] [49] [255]]] := by
  refine ⟨?_, ?_, ?_⟩
  · rintro ⟨hr, -⟩
    have hst := storable_of_refines held_empty (nulFree_save rfl (by decide)) hr
    exact absurd (hst _ ⟨rfl, rfl⟩ ⟨[97], [], [98, 33, 99], [49], [], []⟩ _ rfl).1 (by decide)
  · rintro ⟨hr, -⟩
    have hst := storable_of_refines held_empty (nulFree_save rfl (by decide)) hr
    exact absurd (hst _ ⟨rfl, rfl⟩ ⟨maxUnicodeRune, [], [98], [49], [], []⟩ _ rfl).2.1 (by decide)
  · rintro ⟨hr, -⟩
    have hst := storable_of_refines held_empty (nulFree_save rfl (by decide)) hr
    have hvalid := (hst _ ⟨rfl, rfl⟩ ⟨[97], [], [98], [49], [], []⟩ _ rfl).2.2
    exact absurd hvalid.config (by decide)

end FabricPeerExt.LedgerConfig
