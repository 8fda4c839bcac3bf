/-
FabricPeerExt.PvtData.Views — the store as its readers see it: properties are stated over what can
be looked up.
-/
import FabricPeerExt.PvtData.CdbStore
import FabricPeerExt.PvtData.CouchConvTheorems

namespace FabricPeerExt.PvtData

open Lib

/-! ## Documents -/

def blockDoc (db : CouchDB) (b : UInt64) : Option BlockPvtData :=
  match db.lookup (blockNumberToKey b) with
  | some ⟨_, .blockPvtData d⟩ => some d
  | _ => none

namespace Store

def dataAt (x : Externals) (s : Store) (k : DataKey) : Option CollectionPvtReadWriteSet :=
  (blockDoc s.db k.blkNum).bind fun d => PvtData.dataAt x d k

def expiryAt (x : Externals) (s : Store) (ek : ExpiryKey) : Option ExpiryData :=
  (blockDoc s.db ek.committingBlk).bind fun d => PvtData.expiryAt x d ek

end Store

variable {d : BlockPvtData} {db : CouchDB} {b : UInt64}

theorem blockDoc_congr {db' : CouchDB}
    (h : db'.lookup (blockNumberToKey b) = db.lookup (blockNumberToKey b)) :
    blockDoc db' b = blockDoc db b := by
  rw [blockDoc, blockDoc, h]

theorem blockDoc_of_lookup {rev : Nat}
    (h : db.lookup (blockNumberToKey b) = some ⟨rev, .blockPvtData d⟩) :
    blockDoc db b = some d := by
  rw [blockDoc, h]

theorem blockDoc_eq_some :
    blockDoc db b = some d ↔
      ∃ rev, db.lookup (blockNumberToKey b) = some ⟨rev, .blockPvtData d⟩ := by
  constructor
  · intro h
    unfold blockDoc at h
    split at h
    · rename_i rev d' hl
      exact ⟨rev, by rw [hl, Option.some.inj h]⟩
    · cases h
  · rintro ⟨rev, h⟩
    exact blockDoc_of_lookup h

/-- In a database of the right shape a block without content has no document. -/
theorem DbOk.lookup_eq_none {x : Externals} (hdb : DbOk x db) :
    blockDoc db b = none ↔ db.lookup (blockNumberToKey b) = none := by
  constructor
  · intro h
    cases hl : db.lookup (blockNumberToKey b) with
    | none => rfl
    | some sd =>
      obtain ⟨rev, body⟩ := sd
      obtain ⟨d, rfl, _⟩ := hdb.block hl
      rw [blockDoc_of_lookup hl] at h
      cases h
  · intro h
    rw [blockDoc, h]

theorem DbOk.docOk {x : Externals} (hdb : DbOk x db)
    (h : blockDoc db b = some d) : DocOk x b d := by
  obtain ⟨rev, hl⟩ := blockDoc_eq_some.mp h
  obtain ⟨d', hbody, hok⟩ := hdb.block hl
  cases hbody
  exact hok

/-! ## The missing-data index -/

section
variable (x : Externals)

def prioAt (kv : Kv) (k : MissingDataKey) : Option BitSet :=
  view (encodeElgPrioMissingDataKey x) (decodeMissingDataValue x) kv k

def deprioAt (kv : Kv) (k : MissingDataKey) : Option BitSet :=
  view (encodeElgDeprioMissingDataKey x) (decodeMissingDataValue x) kv k

def inelgAt (kv : Kv) (k : MissingDataKey) : Option BitSet :=
  view (encodeInelgMissingDataKey x) (decodeMissingDataValue x) kv k

variable (k k' : MissingDataKey)

theorem prio_ne_deprio :
    encodeElgPrioMissingDataKey x k ≠ encodeElgDeprioMissingDataKey x k' := by
  intro h
  exact absurd (List.cons.inj h).1 (by decide)

theorem prio_ne_inelg :
    encodeElgPrioMissingDataKey x k ≠ encodeInelgMissingDataKey x k' := by
  intro h
  exact absurd (List.cons.inj h).1 (by decide)

theorem deprio_ne_inelg :
    encodeElgDeprioMissingDataKey x k ≠ encodeInelgMissingDataKey x k' := by
  intro h
  exact absurd (List.cons.inj h).1 (by decide)

/-- The keys that belong to no missing-data group start with another byte. -/
def NotMissingKey (key : Bytes) : Prop :=
  ∀ g ∈ [elgPrioritizedMissingDataGroup, elgDeprioritizedMissingDataGroup,
    inelgMissingDataGroup], key.head? ≠ some g

variable {key : Bytes}

theorem NotMissingKey.ne_prio (h : NotMissingKey key) (k : MissingDataKey) :
    key ≠ encodeElgPrioMissingDataKey x k := by
  rintro rfl
  exact h elgPrioritizedMissingDataGroup (by simp) rfl

theorem NotMissingKey.ne_deprio (h : NotMissingKey key) (k : MissingDataKey) :
    key ≠ encodeElgDeprioMissingDataKey x k := by
  rintro rfl
  exact h elgDeprioritizedMissingDataGroup (by simp) rfl

theorem NotMissingKey.ne_inelg (h : NotMissingKey key) (k : MissingDataKey) :
    key ≠ encodeInelgMissingDataKey x k := by
  rintro rfl
  exact h inelgMissingDataGroup (by simp) rfl

theorem notMissingKey_cons {g : UInt8} (key : Bytes)
    (h : g ∉ [elgPrioritizedMissingDataGroup, elgDeprioritizedMissingDataGroup,
      inelgMissingDataGroup]) : NotMissingKey (g :: key) := by
  intro g' hg hc
  obtain rfl := Option.some.inj hc
  exact h hg

theorem notMissingKey_pending : NotMissingKey pendingCommitKey :=
  notMissingKey_cons _ (by decide)

theorem notMissingKey_lastUpdated : NotMissingKey lastUpdatedOldBlocksKey :=
  notMissingKey_cons _ (by decide)

theorem notMissingKey_collElg (b : UInt64) : NotMissingKey (encodeCollElgKey x b) :=
  notMissingKey_cons _ (by decide)

end

end FabricPeerExt.PvtData
