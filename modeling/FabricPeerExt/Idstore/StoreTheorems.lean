/-
FabricPeerExt.Idstore.StoreTheorems — which ledgers are active?

`UpgradeFormat` saves the document of a ledger X under the key "X" and leaves "ledger_X" as it
was.
-/
import FabricPeerExt.Idstore.Store
import FabricPeerExt.Lib.Run
import Mathlib.Data.Finset.Max

namespace FabricPeerExt.Idstore

open Lib Lib.Faulty
open PvtData (GoString Err liftErr wrapErr)
open DocField

/-! ## §1 Requests -/

def Store.body (s : Store) (key : GoString) : Option CouchDoc :=
  (s.db.lookup key).map StoredDoc.body

def Store.saved (s : Store) (key : GoString) (doc : CouchDoc) : Store :=
  { s with db := s.db.put ⟨key, s.db.currentRev key, false, doc⟩ }

def Store.added (s : Store) (key : GoString) (doc : CouchDoc) : Store :=
  { s with db := s.db.bulk [⟨key, none, false, doc⟩] }

def CouchDoc.IsLedger (doc : CouchDoc) : Prop :=
  doc.jsonValue.lookup inventoryTypeField = some typeLedgerName

section
variable {s : Store} {key key' : GoString} {doc : CouchDoc}

theorem body_saved :
    (s.saved key doc).body key' = if key' = key then some doc else s.body key' := by
  rw [Store.body, Store.saved, DocStore.lookup_put]
  by_cases h : key' = key
  · simp [h, DocStore.outcome]
  · simp [h, Store.body]

theorem mem_docsOfType {t : GoString} : (key, doc) ∈ docsOfType s.db t ↔
    s.body key = some doc ∧ doc.jsonValue.lookup inventoryTypeField = some t := by
  rw [docsOfType, List.mem_filter, List.mem_map, decide_eq_true_iff, Store.body,
    Option.map_eq_some_iff]
  refine and_congr_left fun _ => ⟨?_, ?_⟩
  · rintro ⟨⟨k, d⟩, hmem, heq⟩
    obtain ⟨rfl, rfl⟩ := Prod.mk.inj heq
    exact ⟨d, GoMap.mem_toList.mp hmem, rfl⟩
  · rintro ⟨d, hd, rfl⟩
    exact ⟨(key, d), GoMap.mem_toList.mpr hd, rfl⟩

theorem ledgerIDToKey_inj {id id' : GoString} : ledgerIDToKey id = ledgerIDToKey id' ↔ id = id' :=
  List.append_right_inj _

theorem ledgerIDToKey_ne_metadataID (id : GoString) : ledgerIDToKey id ≠ metadataID := by
  intro h
  have hhead := congrArg List.head? h
  simp [ledgerIDToKey, ledgerKeyPrefix, metadataID] at hhead

@[simp] theorem lookup_ledgerID_ledgerToCouchDoc (id : GoString) (bs : Bytes) (status : GoString) :
    (ledgerToCouchDoc id bs status).jsonValue.lookup inventoryNameLedgerIDField = some id := rfl

theorem not_isLedger_createMetadataDoc (id format : GoString) :
    ¬ (createMetadataDoc id format).IsLedger := by
  intro h
  cases h

end

/-! ### Rules -/

section
variable {I P E : Store → Prop} {Q : Option Nat → Store → Prop}

theorem triple_saveDoc {key : GoString} {rev : Option Nat} {doc : CouchDoc}
    (hQ : ∀ s r, P s → Q r (s.saved key doc)) (hdone : ∀ s, P s → E (s.saved key doc))
    (hnot : ∀ s, P s → E s) : Triple P (saveDoc key rev doc) Q E := by
  have hrev : ∀ s : Store, (if s.db.currentRev key = rev then rev else s.db.currentRev key) =
      s.db.currentRev key := by
    intro s
    split
    next h => exact h.symm
    next => rfl
  refine triple_op (fun s hs => ?_) (fun s hs => ?_) hnot
  · dsimp only
    rw [hrev]
    exact hQ s _ hs
  · dsimp only
    rw [hrev]
    exact hdone s hs

theorem keeps_checkOpen (I : Store → Prop) : Triple I checkOpen (fun _ => I) I := by
  refine triple_bind (R := fun _ => I) (triple_reads fun _ h => h) fun closed => ?_
  exact triple_ite (fun _ => triple_fail fun _ h => h) fun _ => triple_pure fun _ h => h

theorem keeps_readDoc (I : Store → Prop) (key : GoString) :
    Triple I (readDoc key) (fun _ => I) I :=
  triple_op_read (fun _ h => h) fun _ h => h

theorem keeps_getMetadata (I : Store → Prop) : Triple I getMetadata (fun _ => I) I :=
  triple_bind (triple_mapError (keeps_readDoc I _)) fun _ => triple_pure fun _ h => h

theorem keeps_getFormat (I : Store → Prop) : Triple I getFormat (fun _ => I) I :=
  triple_bind (keeps_checkOpen I) fun _ =>
    triple_bind (triple_mapError (keeps_getMetadata I)) fun _ => triple_pure fun _ h => h

theorem keeps_checkUpgradeEligibility (I : Store → Prop) :
    Triple I checkUpgradeEligibility (fun _ => I) I := by
  refine triple_bind (triple_op_read (Q := fun _ => I) (fun _ h => h) fun _ h => h) fun empty => ?_
  refine triple_ite (fun _ => triple_pure fun _ h => h) fun _ => ?_
  refine triple_bind (keeps_getFormat I) fun format => ?_
  refine triple_ite (fun _ => triple_pure fun _ h => h) fun _ => ?_
  exact triple_ite (fun _ => triple_pure fun _ h => h) fun _ => triple_fail fun _ h => h

end

/-! ### Reading -/

section
variable {s : Store}

theorem answers_checkOpen (hopen : s.closed = false) : Answers checkOpen s (.ok ()) := by
  refine Answers.bind (b := false) (by rw [← hopen]; rfl) ?_
  rfl

theorem answers_getLedgerIDValue (id : GoString) :
    Answers (getLedgerIDValue id) s (.ok ((s.body (ledgerIDToKey id)).map CouchDoc.jsonValue,
      (s.body (ledgerIDToKey id)).bind fun doc => getGenesysBlock doc.attachments,
      s.db.currentRev (ledgerIDToKey id))) := by
  rw [Store.body, DocStore.currentRev]
  refine Answers.bind answers_op ?_
  cases s.db.lookup (ledgerIDToKey id) with
  | none => rfl
  | some doc => rfl

/-- `LedgerIDActive` by the document. -/
theorem result_ledgerIDActive (hopen : s.closed = false) (id : GoString) :
    (ledgerIDActive id).result s = .ok ((s.body (ledgerIDToKey id)).any (fun doc =>
      doc.jsonValue.lookup statusField = some Status.active.string),
      (s.body (ledgerIDToKey id)).isSome) := by
  refine Answers.result (Answers.bind (answers_checkOpen hopen)
    (Answers.bind (answers_getLedgerIDValue id) ?_))
  cases s.body (ledgerIDToKey id) with
  | none => rfl
  | some doc => rfl

end

/-! ## §2 The upgrade -/

/-- The inventory before there were statuses: a document for every ledger, with its genesis
block, and perhaps the metadata. -/
structure Created (ledgers : GoMap GoString Bytes) (s : Store) : Prop where
  isOpen : s.closed = false
  ledger : ∀ id bytes, ledgers.lookup id = some bytes → ∃ doc,
    s.body (ledgerIDToKey id) = some doc ∧ doc.IsLedger ∧
    doc.jsonValue.lookup inventoryNameLedgerIDField = some id ∧
    doc.jsonValue.lookup statusField = none ∧ doc.attachments = [(blockAttachmentName, bytes)]
  other : ∀ key doc, s.body key = some doc → (∀ id ∈ ledgers, key ≠ ledgerIDToKey id) →
    key = metadataID ∧ ¬ doc.IsLedger

def attempts (findLimit : Nat) (s : Store) (faults : List (List Fault)) : Store :=
  run (upgradeFormat findLimit).after s faults

/-- Every ledger is active, in both views, and has its genesis block. -/
def Upgraded {β : Type} (proto : Marshaler β) (findLimit : Nat) (ledgers : GoMap GoString Bytes)
    (s : Store) : Prop :=
  ∀ id bytes, ledgers.lookup id = some bytes →
    (ledgerIDActive id).result s = .ok (true, true) ∧
    (∃ ids, (getActiveLedgerIDs findLimit).result s = .ok ids ∧ id ∈ ids) ∧
    (getGenesisBlock proto id).result s = liftErr (proto.unmarshal bytes)

/-- What an upgrade does not change: all documents are of certain ledgers, and one document
has no status. -/
structure Stuck (ids : GoString → Prop) (longest : GoString) (s : Store) : Prop where
  isOpen : s.closed = false
  ids : ∀ key doc, s.body key = some doc → doc.IsLedger →
    ∀ id, doc.jsonValue.lookup inventoryNameLedgerIDField = some id → ids id
  doc : ∃ doc, s.body (ledgerIDToKey longest) = some doc ∧ doc.jsonValue.lookup statusField = none

section
variable {ids : GoString → Prop} {longest : GoString} {s : Store} {n : Nat}

theorem Stuck.saved (h : Stuck ids longest s) {key : GoString} {doc : CouchDoc}
    (hkey : ledgerIDToKey longest ≠ key)
    (hdoc : doc.IsLedger → ∀ id,
      doc.jsonValue.lookup inventoryNameLedgerIDField = some id → ids id) :
    Stuck ids longest (s.saved key doc) where
  isOpen := h.isOpen
  ids key' doc' := by
    rw [body_saved]
    split
    next =>
      intro heq
      obtain rfl := Option.some.inj heq
      exact hdoc
    next => exact h.ids key' doc'
  doc := by
    rw [body_saved, if_neg hkey]
    exact h.doc

section
variable (hlongest : ∀ id, ids id → id.length ≤ longest.length)
include hlongest

/-- The document of a ledger is saved under the ID of the ledger, which is not the key of the
longest one's document. -/
theorem stuck_activateLedger {r : GoString × CouchDoc} (hr : ∀ id,
      r.2.jsonValue.lookup inventoryNameLedgerIDField = some id → ids id) (rev : Option Nat) :
    Triple (Stuck ids longest) (activateLedger rev r) (fun _ => Stuck ids longest)
      (Stuck ids longest) := by
  rw [activateLedger]
  split
  next => exact triple_fail fun _ h => h
  next id hid =>
    have hsave : ∀ (s : Store) (bs : Bytes) (status : GoString), Stuck ids longest s →
        Stuck ids longest (s.saved id (ledgerToCouchDoc id bs status)) := by
      intro s bs status hs
      refine hs.saved (fun heq => ?_) fun _ id' hid' => ?_
      · have hlen := congrArg List.length heq
        have hle := hlongest id (hr id hid)
        simp only [ledgerIDToKey, ledgerKeyPrefix, List.length_append, List.length_cons,
          List.length_nil] at hlen
        omega
      · rw [lookup_ledgerID_ledgerToCouchDoc] at hid'
        exact Option.some.inj hid' ▸ hr id hid
    refine triple_ite (fun _ => triple_fail fun _ h => h) fun _ => ?_
    refine triple_bind (R := fun _ => Stuck ids longest) (triple_mapError ?_) fun _ =>
      triple_pure fun _ h => h
    exact triple_saveDoc (fun s _ => hsave s _ _) (fun s => hsave s _ _) fun _ h => h

theorem stuck_upgradeFormat (n : Nat) :
    Triple (Stuck ids longest) (upgradeFormat n) (fun _ => Stuck ids longest)
      (Stuck ids longest) := by
  refine triple_bind (keeps_checkOpen _) fun _ => ?_
  refine triple_bind (keeps_checkUpgradeEligibility _) fun eligible => ?_
  refine triple_ite (fun _ => ?_) fun _ => triple_pure fun _ h => h
  refine triple_bind (R := fun _ => Stuck ids longest)
    (triple_attempt (keeps_getMetadata _) (fun _ _ h => h) fun _ _ h => h) fun metadata => ?_
  cases metadata with
  | error e => exact triple_pure fun _ h => h
  | ok metadata =>
    have hsave : ∀ (s : Store) (id format : GoString), Stuck ids longest s →
        Stuck ids longest (s.saved metadataID (createMetadataDoc id format)) :=
      fun s id format hs => hs.saved (ledgerIDToKey_ne_metadataID _) fun hdoc =>
        absurd hdoc (not_isLedger_createMetadataDoc _ _)
    refine triple_bind (R := fun _ => Stuck ids longest) (triple_mapError
      (triple_saveDoc (fun s _ => hsave s _ _) (fun s => hsave s _ _) fun _ h => h)) fun rev => ?_
    -- what the query finds are documents of the ledgers
    refine triple_bind (R := fun rs s => Stuck ids longest s ∧ ∀ r ∈ rs, ∀ id,
        r.2.jsonValue.lookup inventoryNameLedgerIDField = some id → ids id)
      (triple_op_read (fun s hs => ⟨hs, fun r hr => ?_⟩) fun _ h => h) fun rs => ?_
    · obtain ⟨hbody, hledger⟩ := mem_docsOfType.mp (List.mem_of_mem_take hr)
      exact hs.ids r.1 r.2 hbody hledger
    · intro s faults hs
      exact triple_each (fun r hr => stuck_activateLedger hlongest (hs.2 r hr) rev) s faults hs.1

theorem stuck_attempts (hs : Stuck ids longest s) (faults : List (List Fault)) :
    Stuck ids longest (attempts n s faults) :=
  run_always (P := Stuck ids longest)
    (fun _ faults h => (stuck_upgradeFormat hlongest n).after h faults) hs

end

theorem Stuck.not_active (h : Stuck ids longest s) :
    (ledgerIDActive longest).result s = .ok (false, true) := by
  obtain ⟨doc, hbody, hstatus⟩ := h.doc
  rw [result_ledgerIDActive h.isOpen, hbody]
  simp [hstatus]

end

theorem Created.stuck {ledgers : GoMap GoString Bytes} {s : Store} (h : Created ledgers s)
    {longest : GoString} (hmem : longest ∈ ledgers) : Stuck (fun id => id ∈ ledgers) longest s where
  isOpen := h.isOpen
  ids key doc hbody hledger id hid := by
    by_contra hnot
    refine (h.other key doc hbody fun id' hid' heq => ?_).2 hledger
    obtain ⟨bytes, hbytes⟩ := Option.isSome_iff_exists.mp (AList.lookup_isSome.mpr hid')
    obtain ⟨doc', hbody', -, hid'', -⟩ := h.ledger id' bytes hbytes
    obtain rfl : doc' = doc := Option.some.inj (hbody'.symm.trans (heq ▸ hbody))
    obtain rfl : id' = id := Option.some.inj (hid''.symm.trans hid)
    exact hnot hid'
  doc := by
    obtain ⟨bytes, hbytes⟩ := Option.isSome_iff_exists.mp (AList.lookup_isSome.mpr hmem)
    obtain ⟨doc, hbody, -, -, hstatus, -⟩ := h.ledger longest bytes hbytes
    exact ⟨doc, hbody, hstatus⟩

/-- If there is a ledger, no attempts to upgrade the format make all of them active. -/
theorem Created.not_upgraded {β : Type} (proto : Marshaler β) (n : Nat)
    {ledgers : GoMap GoString Bytes} {s : Store} (h : Created ledgers s) (hne : ledgers.keys ≠ [])
    (faults : List (List Fault)) : ¬ Upgraded proto n ledgers (attempts n s faults) := by
  intro hup
  have hfin : ledgers.keys.toFinset.Nonempty := (List.toFinset_nonempty_iff _).mpr hne
  obtain ⟨longest, hmem, hmax⟩ := Finset.exists_max_image _ List.length hfin
  have hmem : longest ∈ ledgers := List.mem_toFinset.mp hmem
  have hlongest : ∀ id ∈ ledgers, id.length ≤ longest.length :=
    fun id hid => hmax id (List.mem_toFinset.mpr hid)
  have hstuck := stuck_attempts (n := n) hlongest (h.stuck hmem) faults
  obtain ⟨bytes, hbytes⟩ := Option.isSome_iff_exists.mp (AList.lookup_isSome.mpr hmem)
  have hactive := (hup longest bytes hbytes).1
  rw [hstuck.not_active] at hactive
  cases hactive

/-! ## §3 Runs -/

inductive Op (β : Type) where
  | createLedgerID (ledgerID : GoString) (gb : β)
  | updateLedgerStatus (ledgerID : GoString) (newStatus : Status)
  | setUnderConstructionFlag (ledgerID : GoString)
  | unsetUnderConstructionFlag
  | upgradeFormat
  | close

def Op.program {β : Type} (proto : Marshaler β) (findLimit : Nat) : Op β → StoreM Unit
  | .createLedgerID ledgerID gb => Idstore.createLedgerID proto ledgerID gb
  | .updateLedgerStatus ledgerID newStatus => Idstore.updateLedgerStatus ledgerID newStatus
  | .setUnderConstructionFlag ledgerID => Idstore.setUnderConstructionFlag ledgerID
  | .unsetUnderConstructionFlag => Idstore.unsetUnderConstructionFlag
  | .upgradeFormat => Idstore.upgradeFormat findLimit
  | .close => Idstore.close

def step {β : Type} (proto : Marshaler β) (findLimit : Nat) (s : Store)
    (call : Op β × List Fault) : Store :=
  (call.1.program proto findLimit).after s call.2

def Store.format (s : Store) : GoString :=
  ((s.body metadataID).bind fun doc => doc.jsonValue.lookup formatField).getD previousFormat

def Store.ledgerDocs (s : Store) : List (GoString × CouchDoc) := docsOfType s.db typeLedgerName

/-- An upgrade from the previous format finds no ledgers, and no ledger is created if there
are as many as a query delivers. -/
def Tame {β : Type} (findLimit : Nat) (s : Store) (call : Op β × List Fault) : Prop :=
  match call.1 with
  | .createLedgerID _ _ => s.ledgerDocs.length < findLimit
  | .upgradeFormat => s.format = previousFormat → s.ledgerDocs.length = 0
  | _ => True

instance decidableTame {β : Type} (findLimit : Nat) (s : Store) :
    ∀ call : Op β × List Fault, Decidable (Tame findLimit s call)
  | (.createLedgerID _ _, _) => inferInstanceAs (Decidable (s.ledgerDocs.length < findLimit))
  | (.upgradeFormat, _) =>
    inferInstanceAs (Decidable (s.format = previousFormat → s.ledgerDocs.length = 0))
  | (.updateLedgerStatus _ _, _) => inferInstanceAs (Decidable True)
  | (.setUnderConstructionFlag _, _) => inferInstanceAs (Decidable True)
  | (.unsetUnderConstructionFlag, _) => inferInstanceAs (Decidable True)
  | (.close, _) => inferInstanceAs (Decidable True)

/-- `GetActiveLedgerIDs` returns the ledgers that are active according to `LedgerIDActive`. -/
def Consistent (findLimit : Nat) (s : Store) : Prop :=
  s.closed = false → ∃ ids, (getActiveLedgerIDs findLimit).result s = .ok ids ∧
    ∀ id, id ∈ ids ↔ ∃ found, (ledgerIDActive id).result s = .ok (true, found)

/-- The documents of ledgers are where they are looked for, and a query finds them all. -/
structure InPlace (n : Nat) (s : Store) : Prop where
  ledger : ∀ key doc, s.body key = some doc → doc.IsLedger →
    ∃ id, key = ledgerIDToKey id ∧ doc.jsonValue.lookup inventoryNameLedgerIDField = some id
  keyed : ∀ id doc, s.body (ledgerIDToKey id) = some doc → doc.IsLedger
  found : s.ledgerDocs.length ≤ n

section
variable {s s' : Store} {n : Nat}

theorem mem_ledgerDocs {key : GoString} {doc : CouchDoc} :
    (key, doc) ∈ s.ledgerDocs ↔ s.body key = some doc ∧ doc.IsLedger := mem_docsOfType

theorem nodup_ledgerDocs : (s.ledgerDocs.map Prod.fst).Nodup := by
  have hkeys : (s.db.toList.map fun p => (p.1, p.2.body)).map Prod.fst =
      s.db.toList.map Prod.fst := by
    rw [List.map_map]
    rfl
  refine List.Nodup.sublist (List.filter_sublist.map _) ?_
  rw [hkeys]
  exact GoMap.nodup_toList _

/-- How many documents of ledgers there are, if all are under certain keys. -/
theorem length_ledgerDocs_le (keys : List GoString)
    (h : ∀ key doc, s.body key = some doc → doc.IsLedger → key ∈ keys) :
    s.ledgerDocs.length ≤ keys.length := by
  rw [← List.length_map (f := Prod.fst)]
  refine (List.subperm_of_subset nodup_ledgerDocs fun key hkey => ?_).length_le
  obtain ⟨⟨key, doc⟩, hmem, rfl⟩ := List.mem_map.mp hkey
  obtain ⟨hbody, hledger⟩ := mem_ledgerDocs.mp hmem
  exact h key doc hbody hledger

/-- The document of a ledger is saved where there was one. -/
theorem InPlace.saved_ledger (h : InPlace n s) {id : GoString} {doc : CouchDoc}
    (hold : s.body (ledgerIDToKey id) = some doc) (bs : Bytes) (status : GoString) :
    InPlace n (s.saved (ledgerIDToKey id) (ledgerToCouchDoc id bs status)) where
  ledger key doc' := by
    rw [body_saved]
    split
    next heq =>
      intro hdoc _
      obtain rfl := Option.some.inj hdoc
      exact ⟨id, heq, rfl⟩
    next => exact h.ledger key doc'
  keyed id' doc' := by
    rw [body_saved]
    split
    next =>
      intro hdoc
      obtain rfl := Option.some.inj hdoc
      exact rfl
    next => exact h.keyed id' doc'
  found := by
    refine le_trans (length_ledgerDocs_le (s.ledgerDocs.map Prod.fst) ?_)
      (by rw [List.length_map]; exact h.found)
    intro key doc' hbody hledger
    rw [body_saved] at hbody
    refine List.mem_map.mpr ?_
    split at hbody
    next heq => exact ⟨(key, doc), mem_ledgerDocs.mpr ⟨heq ▸ hold, h.keyed id doc hold⟩, rfl⟩
    next => exact ⟨(key, doc'), mem_ledgerDocs.mpr ⟨hbody, hledger⟩, rfl⟩

theorem InPlace.saved_metadata (h : InPlace n s) {m : Nat} (hm : s.ledgerDocs.length ≤ m)
    (id format : GoString) : InPlace m (s.saved metadataID (createMetadataDoc id format)) where
  ledger key doc' := by
    rw [body_saved]
    split
    next =>
      intro hdoc hledger
      obtain rfl := Option.some.inj hdoc
      exact absurd hledger (not_isLedger_createMetadataDoc _ _)
    next => exact h.ledger key doc'
  keyed id' doc' := by
    rw [body_saved, if_neg (ledgerIDToKey_ne_metadataID id')]
    exact h.keyed id' doc'
  found := by
    refine le_trans (length_ledgerDocs_le (s.ledgerDocs.map Prod.fst) ?_)
      (by rw [List.length_map]; exact hm)
    intro key doc' hbody hledger
    rw [body_saved] at hbody
    split at hbody
    next =>
      obtain rfl := Option.some.inj hbody
      exact absurd hledger (not_isLedger_createMetadataDoc _ _)
    next => exact List.mem_map.mpr ⟨(key, doc'), mem_ledgerDocs.mpr ⟨hbody, hledger⟩, rfl⟩

theorem body_added {key key' : GoString} {doc : CouchDoc} : (s.added key doc).body key' =
    if key' = key ∧ s.body key = none then some doc else s.body key' := by
  rw [Store.body, Store.added, DocStore.bulk, List.foldl_cons, List.foldl_nil, DocStore.lookup_put]
  dsimp only
  by_cases hkey : key' = key
  · subst hkey
    rw [DocStore.currentRev, Store.body]
    cases s.db.lookup key' with
    | none => simp [DocStore.outcome]
    | some d => simp
  · simp [hkey, Store.body]

theorem InPlace.added (h : InPlace n s) (hlt : s.ledgerDocs.length < n) (id : GoString)
    (bs : Bytes) (status : GoString) :
    InPlace n (s.added (ledgerIDToKey id) (ledgerToCouchDoc id bs status)) where
  ledger key doc' := by
    rw [body_added]
    split
    next heq =>
      intro hdoc _
      obtain rfl := Option.some.inj hdoc
      exact ⟨id, heq.1, rfl⟩
    next => exact h.ledger key doc'
  keyed id' doc' := by
    rw [body_added]
    split
    next =>
      intro hdoc
      obtain rfl := Option.some.inj hdoc
      exact rfl
    next => exact h.keyed id' doc'
  found := by
    refine le_trans (length_ledgerDocs_le (ledgerIDToKey id :: s.ledgerDocs.map Prod.fst) ?_)
      (by rw [List.length_cons, List.length_map]; exact hlt)
    intro key doc' hbody hledger
    rw [body_added] at hbody
    split at hbody
    next heq => exact heq.1 ▸ List.mem_cons_self
    next =>
      exact List.mem_cons_of_mem _
        (List.mem_map.mpr ⟨(key, doc'), mem_ledgerDocs.mpr ⟨hbody, hledger⟩, rfl⟩)

/-! ### Calls -/

theorem inPlace_updateUnderConstruction (id : GoString) :
    Triple (InPlace n) (updateUnderConstruction id) (fun _ => InPlace n) (InPlace n) := by
  refine triple_bind (keeps_checkOpen _) fun _ => ?_
  refine triple_bind (keeps_getMetadata _) fun metadata => ?_
  refine triple_bind (R := fun _ => InPlace n) (triple_mapError ?_)
    fun _ => triple_pure fun _ h => h
  exact triple_saveDoc (fun s _ h => h.saved_metadata h.found _ _)
    (fun s h => h.saved_metadata h.found _ _) fun _ h => h

theorem inPlace_createLedgerID {β : Type} (proto : Marshaler β) (id : GoString) (gb : β) :
    Triple (fun s => InPlace n s ∧ s.ledgerDocs.length < n) (createLedgerID proto id gb)
      (fun _ => InPlace n) (InPlace n) := by
  have hexists : Triple (fun s => InPlace n s ∧ s.ledgerDocs.length < n) (ledgerIDExists id)
      (fun _ s => InPlace n s ∧ s.ledgerDocs.length < n)
      (fun s => InPlace n s ∧ s.ledgerDocs.length < n) :=
    triple_bind (keeps_checkOpen _) fun _ =>
      triple_bind (keeps_readDoc _ _) fun _ => triple_pure fun _ h => h
  refine triple_bind ((keeps_checkOpen _).mono_error fun _ h => h.1) fun _ => ?_
  refine triple_bind (hexists.mono_error fun _ h => h.1) fun found => ?_
  refine triple_ite (fun _ => triple_fail fun _ h => h.1) fun _ => ?_
  refine triple_bind (R := fun _ s => InPlace n s ∧ s.ledgerDocs.length < n)
    (triple_lift (fun _ _ _ h => h) fun _ h => h.1) fun bs => ?_
  refine triple_bind (R := fun _ => InPlace n) (triple_mapError ?_) fun _ =>
    inPlace_updateUnderConstruction []
  exact triple_op (fun s h => h.1.added h.2 _ _ _) (fun s h => h.1.added h.2 _ _ _)
    fun _ h => h.1

theorem triple_getLedgerIDValue (I : Store → Prop) (id : GoString) :
    Triple I (getLedgerIDValue id)
      (fun v s => I s ∧ v.1 = (s.body (ledgerIDToKey id)).map CouchDoc.jsonValue) I := by
  refine triple_bind (R := fun doc s => I s ∧ s.body (ledgerIDToKey id) = doc.map StoredDoc.body)
    (triple_op_read (fun _ h => ⟨h, rfl⟩) fun _ h => h) fun doc => ?_
  cases doc with
  | none => exact triple_pure fun s h => ⟨h.1, by rw [h.2]; rfl⟩
  | some d => exact triple_pure fun s h => ⟨h.1, by rw [h.2]; rfl⟩

theorem inPlace_updateLedgerStatus (id : GoString) (status : Status) :
    Triple (InPlace n) (updateLedgerStatus id status) (fun _ => InPlace n) (InPlace n) := by
  refine triple_bind (keeps_checkOpen _) fun _ => ?_
  refine triple_bind (triple_getLedgerIDValue _ id) fun v => ?_
  obtain ⟨metadata, bs, rev⟩ := v
  cases metadata with
  | none => exact triple_fail fun _ h => h.1
  | some metadata =>
    refine triple_ite (fun _ => triple_pure fun _ h => h.1) fun _ => ?_
    have hsave : ∀ s : Store, InPlace n s ∧ some metadata =
        (s.body (ledgerIDToKey id)).map CouchDoc.jsonValue →
        InPlace n (s.saved (ledgerIDToKey id)
          (ledgerToCouchDoc id (bs.getD []) status.string)) := by
      rintro s ⟨hs, hsome⟩
      obtain ⟨doc, hdoc, -⟩ := Option.map_eq_some_iff.mp hsome.symm
      exact hs.saved_ledger hdoc _ _
    refine triple_bind (R := fun _ => InPlace n) ?_ fun _ => triple_pure fun _ h => h
    exact triple_saveDoc (fun s _ => hsave s) hsave fun _ h => h.1

theorem triple_getMetadata (I : Store → Prop) : Triple I getMetadata
    (fun v s => I s ∧ v.1 = (s.body metadataID).map CouchDoc.jsonValue) I := by
  refine triple_bind (R := fun doc s => I s ∧ s.body metadataID = doc.map StoredDoc.body)
    (triple_mapError (triple_op_read (fun _ h => ⟨h, rfl⟩) fun _ h => h)) fun doc => ?_
  refine triple_pure fun s h => ⟨h.1, ?_⟩
  rw [h.2, Option.map_map]
  rfl

theorem triple_checkUpgradeEligibility (I : Store → Prop) : Triple I checkUpgradeEligibility
    (fun eligible s => I s ∧ (eligible = true → s.format = previousFormat)) I := by
  refine triple_bind (R := fun _ => I) (triple_op_read (fun _ h => h) fun _ h => h) fun empty => ?_
  refine triple_ite (fun _ => triple_pure fun _ h => ⟨h, fun hf => by cases hf⟩) fun _ => ?_
  refine triple_bind (R := fun format s => I s ∧ format = s.format) ?_ fun format => ?_
  · refine triple_bind (keeps_checkOpen _) fun _ => ?_
    refine triple_bind (triple_mapError (triple_getMetadata I)) fun metadata => ?_
    refine triple_pure fun s h => ⟨h.1, ?_⟩
    rw [Store.format, h.2]
    cases s.body metadataID with
    | none => rfl
    | some doc => rfl
  · refine triple_ite (fun _ => triple_pure fun _ h => ⟨h.1, fun hf => by cases hf⟩) fun _ => ?_
    exact triple_ite (fun heq => triple_pure fun _ h => ⟨h.1, fun _ => h.2.symm.trans heq⟩)
      fun _ => triple_fail fun _ h => h.1

theorem inPlace_upgradeFormat : Triple
    (fun s => InPlace n s ∧ (s.format = previousFormat → s.ledgerDocs.length = 0))
    (upgradeFormat n) (fun _ => InPlace n) (InPlace n) := by
  refine triple_bind ((keeps_checkOpen _).mono_error fun _ h => h.1) fun _ => ?_
  refine triple_bind ((triple_checkUpgradeEligibility _).mono_error fun _ h => h.1)
    fun eligible => ?_
  refine triple_ite (fun heligible => ?_) fun _ => triple_pure fun _ h => h.1.1
  -- from here on there are no ledgers
  refine Triple.of_imp (P := InPlace 0) ?_ fun s h =>
    ⟨h.1.1.ledger, h.1.1.keyed, Nat.le_of_eq (h.1.2 (h.2 heligible))⟩
  have hweaken : ∀ s, InPlace 0 s → InPlace n s := fun s h =>
    ⟨h.ledger, h.keyed, le_trans h.found (Nat.zero_le n)⟩
  refine triple_bind (R := fun _ => InPlace 0)
    ((triple_attempt (keeps_getMetadata _) (fun _ _ h => h) fun _ _ h => h).mono_error hweaken)
    fun metadata => ?_
  cases metadata with
  | error e => exact triple_pure hweaken
  | ok metadata =>
    refine triple_bind (R := fun _ => InPlace 0) (triple_mapError (triple_saveDoc
      (fun s _ h => h.saved_metadata h.found _ _)
      (fun s h => (hweaken _ (h.saved_metadata h.found _ _))) hweaken)) fun rev => ?_
    refine triple_bind (R := fun rs s => InPlace n s ∧ rs = [])
      (triple_op_read (fun s h => ⟨hweaken s h, ?_⟩) hweaken) fun rs => ?_
    · have hnone := List.length_eq_zero_iff.mp (Nat.le_zero.mp h.found)
      rw [Store.ledgerDocs] at hnone
      rw [hnone, List.take_nil]
    · intro s faults h
      rw [h.2]
      exact h.1

theorem inPlace_step {β : Type} (proto : Marshaler β) (h : InPlace n s) {call : Op β × List Fault}
    (hcall : Tame n s call) : InPlace n (step proto n s call) := by
  obtain ⟨op, faults⟩ := call
  cases op with
  | createLedgerID id gb => exact (inPlace_createLedgerID proto id gb).after ⟨h, hcall⟩ faults
  | updateLedgerStatus id status => exact (inPlace_updateLedgerStatus id status).after h faults
  | setUnderConstructionFlag id => exact (inPlace_updateUnderConstruction id).after h faults
  | unsetUnderConstructionFlag => exact (inPlace_updateUnderConstruction []).after h faults
  | upgradeFormat => exact inPlace_upgradeFormat.after ⟨h, hcall⟩ faults
  | close => exact ⟨h.ledger, h.keyed, h.found⟩

/-! ### The two views -/

theorem activeLedgerIDs_spec : ∀ {rs : List (GoString × CouchDoc)},
    (∀ r ∈ rs, ∃ id, r.2.jsonValue.lookup inventoryNameLedgerIDField = some id) →
    ∃ ids, activeLedgerIDs rs = .ok ids ∧ ∀ id, id ∈ ids ↔ ∃ r ∈ rs,
      r.2.jsonValue.lookup inventoryNameLedgerIDField = some id ∧
        r.2.jsonValue.lookup statusField = some Status.active.string
  | [], _ => ⟨[], rfl, fun id => by simp⟩
  | r :: rs, h => by
    obtain ⟨id, hid⟩ := h r List.mem_cons_self
    obtain ⟨ids, hids, hmem⟩ := activeLedgerIDs_spec fun r' hr' =>
      h r' (List.mem_cons_of_mem r hr')
    rw [activeLedgerIDs, hid, hids]
    by_cases hstatus : r.2.jsonValue.lookup statusField = some Status.active.string
    · refine ⟨id :: ids, if_pos hstatus, fun id' => ?_⟩
      simp [hmem, hid, hstatus, eq_comm]
    · refine ⟨ids, if_neg hstatus, fun id' => ?_⟩
      simp [hmem, hstatus]

theorem InPlace.consistent (h : InPlace n s) : Consistent n s := by
  intro hopen
  have hall : ∀ r ∈ s.ledgerDocs, ∃ id,
      r.2.jsonValue.lookup inventoryNameLedgerIDField = some id := by
    intro r hr
    obtain ⟨hbody, hledger⟩ := mem_ledgerDocs.mp hr
    obtain ⟨id, -, hid⟩ := h.ledger r.1 r.2 hbody hledger
    exact ⟨id, hid⟩
  obtain ⟨ids, hids, hmem⟩ := activeLedgerIDs_spec hall
  refine ⟨ids, ?_, fun id => ?_⟩
  · refine Answers.result (Answers.bind (answers_checkOpen hopen) (Answers.bind answers_op ?_))
    rw [show docsOfType s.db typeLedgerName = s.ledgerDocs from rfl, List.take_of_length_le h.found,
      hids]
    rfl
  · rw [hmem, result_ledgerIDActive hopen]
    constructor
    · rintro ⟨⟨key, doc⟩, hr, hid, hstatus⟩
      obtain ⟨hbody, hledger⟩ := mem_ledgerDocs.mp hr
      obtain ⟨id', rfl, hid'⟩ := h.ledger key doc hbody hledger
      obtain rfl : id' = id := Option.some.inj (hid'.symm.trans hid)
      rw [hbody]
      exact ⟨true, by simp [hstatus]⟩
    · rintro ⟨found, heq⟩
      have hactive := (Prod.mk.inj (Except.ok.inj heq)).1
      cases hbody : s.body (ledgerIDToKey id) with
      | none => simp [hbody] at hactive
      | some doc =>
        have hledger := h.keyed id doc hbody
        obtain ⟨id', hkey, hid⟩ := h.ledger _ doc hbody hledger
        obtain rfl := ledgerIDToKey_inj.mp hkey
        exact ⟨(_, doc), mem_ledgerDocs.mpr ⟨hbody, hledger⟩, hid, by simpa [hbody] using hactive⟩

theorem Created.inPlace {ledgers : GoMap GoString Bytes} (h : Created ledgers s)
    (hn : ledgers.keys.length ≤ n) : InPlace n s where
  ledger key doc hbody hledger := by
    by_contra hnot
    refine (h.other key doc hbody fun id hid heq => ?_).2 hledger
    obtain ⟨bytes, hbytes⟩ := Option.isSome_iff_exists.mp (AList.lookup_isSome.mpr hid)
    obtain ⟨doc', hbody', -, hid', -⟩ := h.ledger id bytes hbytes
    obtain rfl : doc' = doc := Option.some.inj (hbody'.symm.trans (heq ▸ hbody))
    exact hnot ⟨id, heq, hid'⟩
  keyed id doc hbody := by
    by_cases hid : id ∈ ledgers
    · obtain ⟨bytes, hbytes⟩ := Option.isSome_iff_exists.mp (AList.lookup_isSome.mpr hid)
      obtain ⟨doc', hbody', hledger, -⟩ := h.ledger id bytes hbytes
      exact Option.some.inj (hbody'.symm.trans hbody) ▸ hledger
    · have hmeta := (h.other _ doc hbody fun id' hid' heq =>
        hid (ledgerIDToKey_inj.mp heq ▸ hid')).1
      exact absurd hmeta (ledgerIDToKey_ne_metadataID id)
  found := by
    refine le_trans (length_ledgerDocs_le (ledgers.keys.map ledgerIDToKey) ?_)
      (by rw [List.length_map]; exact hn)
    intro key doc hbody hledger
    by_contra hnot
    refine (h.other key doc hbody fun id hid heq => ?_).2 hledger
    exact hnot (List.mem_map.mpr ⟨id, hid, heq.symm⟩)

end

/-- From an inventory without statuses: whatever attempts to upgrade the format are made, all
ledgers are active and have their genesis blocks only if there are none; and in every run
whose upgrades find no ledgers, within the limit of a query, the two views agree. -/
theorem inventory_spec {β : Type} (proto : Marshaler β) (findLimit : Nat)
    {ledgers : GoMap GoString Bytes} {s : Store} (h : Created ledgers s) :
    (∀ faults, Upgraded proto findLimit ledgers (attempts findLimit s faults) ↔
      ledgers.keys = []) ∧
    (ledgers.keys.length ≤ findLimit → ∀ calls : List (Op β × List Fault),
      Meets (step proto findLimit) (Tame findLimit) s calls →
      Consistent findLimit (run (step proto findLimit) s calls)) := by
  refine ⟨fun faults => ⟨fun hup => ?_, fun hnil => ?_⟩, fun hle calls hcalls => ?_⟩
  · by_contra hne
    exact h.not_upgraded proto findLimit hne faults hup
  · intro id bytes hbytes
    have hmem : id ∈ ledgers.keys :=
      AList.lookup_isSome.mp (Option.isSome_iff_exists.mpr ⟨bytes, hbytes⟩)
    rw [hnil] at hmem
    cases hmem
  · exact (run_invariant (P := InPlace findLimit) (fun _ _ hs hcall => inPlace_step proto hs hcall)
      (h.inPlace hle) hcalls).consistent

/-! ## One ledger -/

def ledgerDoc : CouchDoc where
  jsonValue := (∅ : JsonValue).insertAll
    [(idField, ledgerIDToKey [97]), (inventoryTypeField, typeLedgerName),
      (inventoryNameLedgerIDField, [97])]
  attachments := [(blockAttachmentName, [1])]

def oneLedger : Store := ⟨AList.insert (ledgerIDToKey [97]) ⟨1, ledgerDoc⟩ ∅, false⟩

def noLedger : Store := ⟨AList.insert metadataID ⟨1, createMetadataDoc [] []⟩ ∅, false⟩

theorem body_singleton {key key' : GoString} {doc : StoredDoc CouchDoc} :
    Store.body ⟨AList.insert key doc ∅, false⟩ key' =
      if key' = key then some doc.body else none := by
  rw [Store.body, GoMap.lookup_insert_eq]
  split
  next => rfl
  next => rfl

theorem created_oneLedger : Created (AList.insert [97] [1] ∅) oneLedger where
  isOpen := rfl
  ledger id bytes hid := by
    rw [GoMap.lookup_insert_eq] at hid
    split at hid
    next heq =>
      subst heq
      obtain rfl := Option.some.inj hid
      exact ⟨ledgerDoc, rfl, rfl, rfl, rfl, rfl⟩
    next => cases hid
  other key doc hbody hkey := by
    rw [oneLedger, body_singleton] at hbody
    split at hbody
    next heq => exact absurd heq (hkey [97] (by decide))
    next => cases hbody

theorem created_noLedger : Created ∅ noLedger where
  isOpen := rfl
  ledger id bytes hid := by cases hid
  other key doc hbody hkey := by
    rw [noLedger, body_singleton] at hbody
    split at hbody
    next heq =>
      obtain rfl := Option.some.inj hbody
      exact ⟨heq, not_isLedger_createMetadataDoc _ _⟩
    next => cases hbody

def plainBlocks : Marshaler Bytes := ⟨.ok, .ok, fun h => h.symm⟩

def upgradeFirst : List (Op Bytes × List Fault) :=
  [(.upgradeFormat, [.none, .none, .none, .none, .rejected]), (.upgradeFormat, []),
    (.createLedgerID [97] [1], []), (.createLedgerID [98] [2], [.none, .lost]),
    (.updateLedgerStatus [97] .inactive, [])]

theorem inventory_spec_examples :
    ¬ Upgraded plainBlocks 25 (AList.insert [97] [1] ∅)
        (attempts 25 oneLedger [[.none, .none, .none, .none, .lost], []]) ∧
      Consistent 25 (run (step plainBlocks 25) noLedger upgradeFirst) :=
  ⟨fun h => absurd (((inventory_spec plainBlocks 25 created_oneLedger).1 _).mp h) (by decide),
    (inventory_spec plainBlocks 25 created_noLedger).2 (by decide) upgradeFirst (by decide +kernel)⟩

/-- After an upgrade in which nothing fails, the ledger is active for `GetActiveLedgerIDs` and
not for `LedgerIDActive`. -/
theorem upgradeFormat_disagrees :
    (upgradeFormat 25).result oneLedger = .ok () ∧
      (getActiveLedgerIDs 25).result (attempts 25 oneLedger [[]]) = .ok [[97]] ∧
      (ledgerIDActive [97]).result (attempts 25 oneLedger [[]]) = .ok (false, true) :=
  ⟨rfl, rfl, rfl⟩

end FabricPeerExt.Idstore
