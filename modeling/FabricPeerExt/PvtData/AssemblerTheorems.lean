/-
FabricPeerExt.PvtData.AssemblerTheorems — what the loops over a block's entries return: groupings
of the entries, in the order they come.
-/
import FabricPeerExt.Lib.Grouping
import FabricPeerExt.PvtData.Assembler
import FabricPeerExt.PvtData.CouchConvTheorems

namespace FabricPeerExt.PvtData

open Lib Common

/-! ## §1 The assemblers -/

def nsGrouping : Grouping GoString (GoString × CollectionPvtReadWriteSet)
    (GoString × CollectionPvtReadWriteSet) NsPvtReadWriteSet where
  keyOf e := e.1
  emit e := e
  key n := n.namespaceName
  members n := n.collectionPvtRwset.map fun c => (n.namespaceName, c)
  start e := ⟨e.1, [e.2]⟩
  extend n e := ⟨n.namespaceName, n.collectionPvtRwset ++ [e.2]⟩
  key_start _ := rfl
  key_extend _ _ := rfl
  members_start _ := rfl
  members_extend h := by simp [h]

def RetrievedTxPvtData.nsSets (t : RetrievedTxPvtData) : List NsPvtReadWriteSet :=
  match t.writeSet with
  | none => []
  | some ws => ws.nsPvtRwset

def RetrievedTxPvtData.sets (t : RetrievedTxPvtData) :
    List (UInt64 × GoString × CollectionPvtReadWriteSet) :=
  (t.nsSets.flatMap nsGrouping.members).map fun e => (t.seqInBlock, e)

def txGrouping : Grouping UInt64 (DataKey × CollectionPvtReadWriteSet)
    (UInt64 × GoString × CollectionPvtReadWriteSet) RetrievedTxPvtData where
  keyOf e := e.1.txNum
  emit e := (e.1.txNum, e.1.ns, e.2)
  key t := t.seqInBlock
  members t := t.sets
  start e := ⟨e.1.txNum, some ⟨0, nsGrouping.push [] (e.1.ns, e.2)⟩⟩
  extend t e := ⟨t.seqInBlock, some ⟨0, nsGrouping.push t.nsSets (e.1.ns, e.2)⟩⟩
  key_start _ := rfl
  key_extend _ _ := rfl
  members_start _ := rfl
  members_extend {t e} h := by
    simp only [RetrievedTxPvtData.sets, RetrievedTxPvtData.nsSets, Grouping.flatMap_push,
      List.map_append, List.map_cons, List.map_nil, h]
    rfl

namespace TxPvtdataAssembler

theorem getTxPvtdata_add {a : TxPvtdataAssembler} {cur : NsPvtReadWriteSet}
    (h : a.currentNsWSet = some cur) (k : DataKey) (v : CollectionPvtReadWriteSet) :
    (a.add k.ns v).getTxPvtdata = txGrouping.extend a.getTxPvtdata (k, v) ∧
      ∃ cur', (a.add k.ns v).currentNsWSet = some cur' := by
  have hpush := nsGrouping.push_concat a.nsPvtRwset cur (k.ns, v)
  simp only [add, h, txGrouping, getTxPvtdata, RetrievedTxPvtData.nsSets, Option.toList_some,
    hpush]
  by_cases hns : cur.namespaceName = k.ns
  · rw [if_neg (not_not.mpr hns),
      if_pos (show nsGrouping.key cur = nsGrouping.keyOf (k.ns, v) from hns)]
    exact ⟨by rw [← hns]; rfl, _, rfl⟩
  · rw [if_pos hns, if_neg (show ¬ nsGrouping.key cur = nsGrouping.keyOf (k.ns, v) from hns)]
    exact ⟨rfl, _, rfl⟩

end TxPvtdataAssembler

namespace BlockAssembler

/-- Between two entries: something is closed only if something is open, and the open
transaction has an open namespace. -/
structure Ready (a : BlockAssembler) : Prop where
  closed : a.currentTxWsetAssembler = none → a.blockPvtdata = []
  opened : ∀ cur, a.currentTxWsetAssembler = some cur → ∃ ns, cur.currentNsWSet = some ns

theorem ready_new (b : UInt64) : Ready (new b) := ⟨fun _ => rfl, nofun⟩

theorem add_spec {a : BlockAssembler} (h : a.Ready) (k : DataKey)
    (v : CollectionPvtReadWriteSet) :
    (a.add k v).finish = txGrouping.push a.finish (k, v) ∧ (a.add k v).Ready := by
  unfold add finish
  cases hcur : a.currentTxWsetAssembler with
  | none =>
    refine ⟨?_, nofun, ?_⟩
    · simp only [h.closed hcur, Option.map_none, Option.toList_none, List.append_nil]
      rfl
    · rintro cur hsome
      rw [← Option.some.inj hsome]
      exact ⟨_, rfl⟩
  | some cur =>
    obtain ⟨ns, hns⟩ := h.opened cur hcur
    have hpush := txGrouping.push_concat a.blockPvtdata cur.getTxPvtdata (k, v)
    obtain ⟨hextend, cur', hcur'⟩ := TxPvtdataAssembler.getTxPvtdata_add hns k v
    simp only [Option.map_some, Option.toList_some, hpush]
    by_cases htx : k.txNum = cur.txNum
    · have hkey : txGrouping.key cur.getTxPvtdata = txGrouping.keyOf (k, v) := htx.symm
      rw [if_neg (not_not.mpr htx), if_pos hkey]
      refine ⟨by rw [← hextend]; rfl, nofun, ?_⟩
      rintro c hsome
      rw [← Option.some.inj hsome]
      exact ⟨cur', hcur'⟩
    · have hkey : ¬ txGrouping.key cur.getTxPvtdata = txGrouping.keyOf (k, v) := Ne.symm htx
      rw [if_pos htx, if_neg hkey]
      refine ⟨rfl, nofun, ?_⟩
      rintro c hsome
      rw [← Option.some.inj hsome]
      exact ⟨_, rfl⟩

theorem finish_foldl_of_ready (es : List (DataKey × CollectionPvtReadWriteSet)) :
    ∀ {a : BlockAssembler}, a.Ready →
      (es.foldl (fun a e => a.add e.1 e.2) a).finish = txGrouping.pushAll a.finish es := by
  induction es with
  | nil => exact fun _ => rfl
  | cons e es ih =>
    intro a h
    obtain ⟨hfin, hready⟩ := add_spec h e.1 e.2
    rw [List.foldl_cons, ih hready, hfin]
    rfl

/-- The loop over the entries of a block returns their groups. -/
theorem finish_foldl (b : UInt64) (es : List (DataKey × CollectionPvtReadWriteSet)) :
    (es.foldl (fun a e => a.add e.1 e.2) (new b)).finish = txGrouping.pushAll [] es :=
  finish_foldl_of_ready es (ready_new b)

end BlockAssembler

/-! ## §2 Sorted entries -/

/-- The order of a block's write sets: by transaction, then by namespace, then by
collection. -/
def Before (a b : UInt64 × GoString × CollectionPvtReadWriteSet) : Prop :=
  a.1 < b.1 ∨ a.1 = b.1 ∧ (a.2.1 < b.2.1 ∨
    a.2.1 = b.2.1 ∧ a.2.2.collectionName < b.2.2.collectionName)

/-- A result in which no transaction, no namespace of a transaction and no collection of
a namespace is split or comes up twice, and all come in increasing order. -/
structure Grouped (result : List RetrievedTxPvtData) : Prop where
  txs : result.Pairwise fun t t' => t.seqInBlock < t'.seqInBlock
  nss : ∀ t ∈ result, t.nsSets ≠ [] ∧
    t.nsSets.Pairwise fun n n' => n.namespaceName < n'.namespaceName
  colls : ∀ t ∈ result, ∀ n ∈ t.nsSets, n.collectionPvtRwset ≠ [] ∧
    n.collectionPvtRwset.Pairwise fun c c' => c.collectionName < c'.collectionName

theorem Before.ne {a b : UInt64 × GoString × CollectionPvtReadWriteSet} (h : Before a b) :
    a ≠ b := by
  rintro rfl
  rcases h with h | ⟨_, h | ⟨_, h⟩⟩
  · exact absurd h (UInt64.lt_irrefl _)
  · exact absurd h (List.lt_irrefl _)
  · exact absurd h (List.lt_irrefl _)

theorem grouped_pushAll {es : List (DataKey × CollectionPvtReadWriteSet)}
    (hsorted : (es.map txGrouping.emit).Pairwise Before) :
    Grouped (txGrouping.pushAll [] es) := by
  set result := txGrouping.pushAll [] es with hresult
  have hmax : txGrouping.Maximal result := Grouping.maximal_pushAll es ⟨List.isChain_nil, nofun⟩
  have hflat : (result.flatMap txGrouping.members).Pairwise Before := by
    rw [hresult, Grouping.flatMap_pushAll]
    exact hsorted
  -- the namespaces of a transaction, on their own
  have hns : ∀ t ∈ result, nsGrouping.Maximal t.nsSets := by
    refine txGrouping.forall_pushAll (P := fun t => nsGrouping.Maximal t.nsSets) (fun e => ?_)
      (fun t e _ ht => ht.push _) (fun t ht => by cases ht) es
    exact Grouping.Maximal.push ⟨List.isChain_nil, nofun⟩ _
  have hinner : ∀ t ∈ result, (t.nsSets.flatMap nsGrouping.members).Pairwise
      fun p q => Before (t.seqInBlock, p) (t.seqInBlock, q) := fun t ht =>
    List.pairwise_map.mp ((List.pairwise_flatMap.mp hflat).1 t ht)
  refine ⟨?_, fun t ht => ⟨?_, ?_⟩, fun t ht n hn => ⟨?_, ?_⟩⟩
  · refine hmax.pairwise UInt64.lt_trans hflat fun t _ t' _ a ha a' ha' hbef => ?_
    obtain ⟨_, _, rfl⟩ := List.mem_map.mp ha
    obtain ⟨_, _, rfl⟩ := List.mem_map.mp ha'
    rcases hbef with hlt | ⟨heq, _⟩
    · exact .inr hlt
    · exact .inl heq
  · intro hnil
    exact hmax.members_ne t ht (by simp [txGrouping, RetrievedTxPvtData.sets, hnil])
  · refine (hns t ht).pairwise List.lt_trans (hinner t ht) fun n _ n' _ a ha a' ha' hbef => ?_
    obtain ⟨_, _, rfl⟩ := List.mem_map.mp ha
    obtain ⟨_, _, rfl⟩ := List.mem_map.mp ha'
    rcases hbef with hlt | ⟨_, hlt | ⟨heq, _⟩⟩
    · exact absurd hlt (UInt64.lt_irrefl _)
    · exact .inr hlt
    · exact .inl heq
  · intro hnil
    exact (hns t ht).members_ne n hn (by simp [nsGrouping, hnil])
  · refine (List.pairwise_map.mp ((List.pairwise_flatMap.mp (hinner t ht)).1 n hn)).imp ?_
    rintro c c' (hlt | ⟨_, hlt | ⟨_, hlt⟩⟩)
    · exact absurd hlt (UInt64.lt_irrefl _)
    · exact absurd hlt (List.lt_irrefl _)
    · exact hlt

/-! ## §3 A document -/

section
variable {x : Externals} {btlPolicy : BtlPolicy}

def shown (btlPolicy : BtlPolicy) (filter : PvtNsCollFilter) (last : UInt64)
    (k : DataKey) : Bool :=
  (match isExpired btlPolicy k.toNsCollBlk last with
    | .ok expired => !expired
    | .error _ => false) && passesFilter k filter

variable {d : BlockPvtData} {filter : PvtNsCollFilter} {b last : UInt64}

theorem checkIsExpired_eq {k : DataKey} {e : UInt64}
    (h : btlPolicy.getExpiringBlock k.ns k.coll k.blkNum = .ok e) :
    checkIsExpired btlPolicy filter last k = .ok (!shown btlPolicy filter last k) := by
  unfold checkIsExpired shown isExpired
  simp [h]

/-- What stands behind the height keeps a data key apart from the v1.1 format. -/
theorem v11Format_encodeDataKey (k : DataKey) : v11Format x (encodeDataKey x k) = .ok false := by
  unfold v11Format encodeDataKey
  simp [Height.newHeightFromBytes_toBytes]

/-- The data entries of the document of block `b`, in the order of their keys. -/
structure DocEntries (x : Externals) (b : UInt64) (d : BlockPvtData)
    (es : List (DataKey × CollectionPvtReadWriteSet)) : Prop where
  keys : d.data.keys.insertionSort (fun a b => a ≤ b) = es.map fun e => dataId x e.1
  entry : ∀ e ∈ es, e.1.blkNum = b ∧ NulFree e.1.ns ∧ e.2.collectionName = e.1.coll ∧
    ∃ bs, d.data.lookup (dataId x e.1) = some bs ∧ decodeDataValue x bs = .ok e.2

theorem exists_docEntries (hd : DocOk x b d) :
    ∃ es, DocEntries x b d es := by
  have hall : ∀ h ∈ d.data.keys.insertionSort (fun a b => a ≤ b),
      ∃ e : DataKey × CollectionPvtReadWriteSet, h = dataId x e.1 ∧ e.1.blkNum = b ∧
        NulFree e.1.ns ∧ e.2.collectionName = e.1.coll ∧
        ∃ bs, d.data.lookup (dataId x e.1) = some bs ∧ decodeDataValue x bs = .ok e.2 := by
    intro h hh
    rw [(List.perm_insertionSort _ _).mem_iff, ← AList.mem_keys, ← AList.lookup_isSome] at hh
    obtain ⟨bs, hbs⟩ := Option.isSome_iff_exists.mp hh
    obtain ⟨k, v, hb, hnul, rfl, hv, hcoll⟩ := hd.data_ok hbs
    exact ⟨(k, v), rfl, hb, hnul, hcoll, bs, hbs, hv⟩
  have : Nonempty (DataKey × CollectionPvtReadWriteSet) := ⟨⟨⟨⟨[], [], 0⟩, 0⟩, ⟨[], []⟩⟩⟩
  choose! f hf using hall
  refine ⟨(d.data.keys.insertionSort (fun a b => a ≤ b)).map f, ?_, fun e he => ?_⟩
  · rw [List.map_map]
    refine (List.map_id _).symm.trans (List.map_congr_left fun h hh => (hf h hh).1)
  · obtain ⟨h, hh, rfl⟩ := List.mem_map.mp he
    exact (hf h hh).2

variable {es : List (DataKey × CollectionPvtReadWriteSet)}

/-- An entry of the list is what the document shows for its key. -/
theorem DocEntries.mem_iff (h : DocEntries x b d es) {k : DataKey}
    {v : CollectionPvtReadWriteSet} (hk : NulFree k.ns) :
    (k, v) ∈ es ↔ dataAt x d k = some v := by
  constructor
  · intro hmem
    obtain ⟨_, _, _, bs, hbs, hv⟩ := h.entry _ hmem
    exact view_eq_some.mpr ⟨bs, hbs, hv⟩
  · intro hv
    obtain ⟨bs, hbs, hdec⟩ := view_eq_some.mp hv
    have hmem : dataId x k ∈ es.map fun e => dataId x e.1 := by
      rw [← h.keys, (List.perm_insertionSort _ _).mem_iff, ← AList.mem_keys,
        ← AList.lookup_isSome, hbs]
      rfl
    obtain ⟨e, he, heq⟩ := List.mem_map.mp hmem
    obtain ⟨_, hnul, _, bs', hbs', hdec'⟩ := h.entry e he
    obtain rfl : e.1 = k := dataId_injective hnul hk heq
    rw [hbs] at hbs'
    rw [← Option.some.inj hbs', hdec] at hdec'
    rw [Except.ok.inj hdec']
    exact he

theorem DocEntries.sorted (h : DocEntries x b d es) : (es.map txGrouping.emit).Pairwise Before := by
  have hle : (es.map fun e => dataId x e.1).Pairwise (fun a b => a ≤ b) := by
    rw [← h.keys]
    exact List.pairwise_insertionSort (fun a b => a ≤ b) d.data.keys
  have hne : (es.map fun e => dataId x e.1).Nodup := by
    rw [← h.keys]
    exact (List.perm_insertionSort _ _).nodup_iff.mpr d.data.keys_nodup
  rw [List.pairwise_map] at hle ⊢
  rw [List.Nodup, List.pairwise_map] at hne
  refine (hle.and hne).imp_of_mem fun {e e'} he he' hlt => ?_
  obtain ⟨hb, hnul, hcoll, _⟩ := h.entry e he
  obtain ⟨hb', hnul', hcoll', _⟩ := h.entry e' he'
  have hlt' : encodeDataKey x e.1 < encodeDataKey x e'.1 :=
    hexEncode_lt_iff.mp ((lt_or_lt_of_ne hlt.2).resolve_right fun hgt => hlt.1 hgt)
  rw [encodeDataKey_lt_iff x (hb.trans hb'.symm) hnul hnul', ← hcoll, ← hcoll'] at hlt'
  exact hlt'

/-- The loop of `assemble`, from any state on. -/
theorem assembleLoop_eq {m : GoMap GoString Bytes} (hes : ∀ e ∈ es, NulFree e.1.ns ∧
      ∃ bs, m.lookup (dataId x e.1) = some bs ∧ decodeDataValue x bs = .ok e.2)
    (hpolicy : ∀ e ∈ es, ∃ blk,
      btlPolicy.getExpiringBlock e.1.ns e.1.coll e.1.blkNum = .ok blk) (a : BlockAssembler) :
    assembleLoop x btlPolicy filter last m a (es.map fun e => dataId x e.1) =
      .ok ((es.filter fun e => shown btlPolicy filter last e.1).foldl
        (fun a e => a.add e.1 e.2) a).finish := by
  induction es generalizing a with
  | nil => rfl
  | cons e es ih =>
    obtain ⟨hnul, bs, hbs, hv⟩ := hes e List.mem_cons_self
    obtain ⟨blk, hblk⟩ := hpolicy e List.mem_cons_self
    have hrest := ih (fun e' he' => hes e' (List.mem_cons_of_mem e he'))
      fun e' he' => hpolicy e' (List.mem_cons_of_mem e he')
    rw [List.map_cons, assembleLoop, List.filter_cons]
    simp only [dataId, hexDecode_hexEncode, v11Format_encodeDataKey]
    rw [← dataId, hbs, Option.getD_some, assembleKeyValue, decodeDatakey_encodeDataKey x hnul]
    simp only [checkIsExpired_eq hblk]
    cases shown btlPolicy filter last e.1 with
    | false => exact hrest a
    | true =>
      simp only [Bool.not_true, hv]
      exact hrest (a.add e.1 e.2)

/-- `assemble` on the document of a block. -/
theorem assemble_eq (h : DocEntries x b d es) (hpolicy : ∀ e ∈ es, ∃ blk,
      btlPolicy.getExpiringBlock e.1.ns e.1.coll e.1.blkNum = .ok blk) :
    assemble x btlPolicy filter last d.data b =
      .ok (txGrouping.pushAll [] (es.filter fun e => shown btlPolicy filter last e.1)) := by
  rw [assemble, h.keys, assembleLoop_eq (fun e he => ⟨(h.entry e he).2.1, (h.entry e he).2.2.2⟩)
    hpolicy, BlockAssembler.finish_foldl]

end

end FabricPeerExt.PvtData
