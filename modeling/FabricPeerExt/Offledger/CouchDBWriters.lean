/-
FabricPeerExt.Offledger.CouchDBWriters — calls of `Put` and of `DeleteExpiredKeys` of
`couchdbstore/dbstore.go` side by side, each request a step.

Neither call reads the answer to its batch.
-/
import FabricPeerExt.Lib.Calls
import FabricPeerExt.Offledger.CouchDBRoundTrip

namespace FabricPeerExt.Offledger.CouchDBStore

open Lib
open Lib.CouchDB
open PvtData (GoString Err liftErr wrapErr)
open Offledger.Api

/-! ## The calls -/

abbrev Made := KeyValue × Option CouchDoc

/-- Between two requests of a call. -/
inductive Place where
  /-- `Put` has made documents, and has key-values left. -/
  | put (made : List Made) (rest : List KeyValue)
  | deleteExpiredKeys (now : Time)
  /-- `DeleteExpiredKeys` has the answer to its query. -/
  | deleting (docs : List CouchDoc)
  deriving DecidableEq

/-- What a call has returned, with the database at its end. -/
inductive Outcome where
  | put (keyVal : List KeyValue) (db : Database) (result : Except Err Unit)
  | deleteExpiredKeys (result : Except Err Unit)

section
variable (srv : Server)

/-- The last part of `dbstore.Put` and of `DeleteExpiredKeys`. -/
def sendBatch (db : Database) : List CouchDoc → Database × Except Err Unit
  | [] => (db, .ok ())
  | doc :: docs =>
    match wrapErr s!"BatchUpdateDocuments failed for [{docs.length + 1}] documents"
        (liftErr (srv.batchUpdateDocuments db (doc :: docs))) with
    | .error e => (db, .error e)
    | .ok db' => (db', .ok ())

/-- The next request of `dbstore.Put` or `dbstore.DeleteExpiredKeys`. -/
def next (db : Database) : Place → Option (Database × Next Place Outcome)
  | .put made (kv :: rest) =>
    match createCouchDoc srv db kv with
    | .error e => some (db, .ret (.put (made.map Prod.fst ++ kv :: rest) db (.error e)))
    | .ok doc => some (db, .goTo (.put (made ++ [(kv, doc)]) rest))
  | .put made [] =>
    let (db', result) := sendBatch srv db (made.filterMap Prod.snd)
    some (db', .ret (.put (made.map Prod.fst) db' result))
  | .deleteExpiredKeys now =>
    some (db, .goTo (.deleting
      ((db.toList.filter fun p => isExpired now p.2).map fun p => expiryData p.1 p.2)))
  | .deleting docs =>
    let (db', result) := sendBatch srv db docs
    some (db', .ret (.deleteExpiredKeys result))

/-- A call begins, or goes on. -/
inductive Step where
  | call (request : Request)
  | go (c : Place)

def writersStep (p : Pool Database Place Outcome) : Step → Pool Database Place Outcome
  | .call (.put keyVal) => p.start (.put [] keyVal)
  | .call (.deleteExpiredKeys now) => p.start (.deleteExpiredKeys now)
  | .go c => p.go (next srv) c

end

def noWriters : Pool Database Place Outcome := ⟨∅, 0, []⟩

/-! ## What should be stored -/

/-- The members and the attachments of a document of the key-value, those of the server
apart; nothing for a deletion. -/
def contentOf (kv : KeyValue) : Option (OrderedMap Text (Json Number) × List Attachment) :=
  match jsonMapFromValue kv.value with
  | .ok (some m, docType) =>
    if docType = .typeDelete then none
    else some ((literals (setValueFields m kv.value)).restrict fun name => !isSpecial name,
      if docType = .typeAttachment then
        ((kv.value.bind Value.value).map fun value => [asAttachment value]).getD []
      else [])
  | _ => none

def Stored (db : Database) (kv : KeyValue) : Prop :=
  (db.lookup (toText kv.key)).map (fun doc => (doc.members, doc.attachments)) = contentOf kv

def IsLast (keyVal : List KeyValue) (kv : KeyValue) : Prop :=
  ∃ before after, keyVal = before ++ kv :: after ∧ kv.key ∉ after.map KeyValue.key

/-- A `Put` that has returned no error has stored the last value of each key. -/
def NoLostWrite (p : Pool Database Place Outcome) : Prop :=
  ∀ keyVal db, .put keyVal db (.ok ()) ∈ p.returned → ∀ kv, IsLast keyVal kv → Stored db kv

/-- The batch meets no other writer: the last key-value of each key has the only document of
its ID, and that was made from the revision that the database has. -/
def Current (db : Database) (made : List Made) : Prop :=
  ∀ before kv doc after, made = before ++ (kv, doc) :: after →
    kv.key ∉ after.map (fun p => p.1.key) →
      couchDocOf kv (revisionOf (db.lookup (toText kv.key))) = .ok doc ∧
      (∀ p ∈ before ++ after, toText p.1.key = toText kv.key → p.2 = none) ∧
      ∀ m docType, jsonMapFromValue kv.value = .ok (some m, docType) →
        Undisturbed (db.lookup (toText kv.key)) m

/-- The batch of a `Put` is sent only while it is current. -/
def SendsCurrent (p : Pool Database Place Outcome) : Step → Prop
  | .go (.put made []) => .put made [] ∈ p.calls → Current p.shared made
  | _ => True

/-! ## One call alone -/

theorem put_eq_sendBatch (srv : Server) (db : Database) (keyVal : List KeyValue) :
    put srv db keyVal = match collect (createCouchDoc srv db) keyVal with
      | .error e => (db, .error e)
      | .ok docs => sendBatch srv db (docs.filterMap id) := by
  rw [put]
  cases collect (createCouchDoc srv db) keyVal with
  | error e => rfl
  | ok docs =>
    dsimp only
    cases docs.filterMap id with
    | nil => rfl
    | cons doc docs => rfl

/-- A `Put` that no other call meets does what `put` does. -/
theorem run_put_alone (srv : Server) (db : Database) (keyVal : List KeyValue) :
    ∃ cs, run (Pool.go (next srv)) ⟨db, {.put [] keyVal}, []⟩ cs =
      ⟨(put srv db keyVal).1, 0,
        [.put keyVal (put srv db keyVal).1 (put srv db keyVal).2]⟩ := by
  have hrest : ∀ (rest : List KeyValue) (made : List Made),
      ∃ cs, run (Pool.go (next srv)) ⟨db, {.put made rest}, []⟩ cs =
        match collect (createCouchDoc srv db) rest with
        | .error e => ⟨db, 0, [.put (made.map Prod.fst ++ rest) db (.error e)]⟩
        | .ok docs =>
          let r := sendBatch srv db (made.filterMap Prod.snd ++ docs.filterMap id)
          ⟨r.1, 0, [.put (made.map Prod.fst ++ rest) r.1 r.2]⟩ := by
    intro rest
    induction rest with
    | nil =>
      intro made
      refine ⟨[.put made []], ?_⟩
      rw [run, List.foldl_cons, List.foldl_nil, Pool.go_single]
      simp [next, collect]
    | cons kv rest ih =>
      intro made
      have hgo := Pool.go_single (next srv) db (.put made (kv :: rest)) []
      rw [next] at hgo
      rw [collect]
      cases hdoc : createCouchDoc srv db kv with
      | error e =>
        rw [hdoc] at hgo
        exact ⟨[.put made (kv :: rest)], hgo⟩
      | ok doc =>
        rw [hdoc] at hgo
        obtain ⟨cs, hcs⟩ := ih (made ++ [(kv, doc)])
        refine ⟨.put made (kv :: rest) :: cs, ?_⟩
        rw [run, List.foldl_cons, hgo]
        refine Eq.trans hcs ?_
        cases collect (createCouchDoc srv db) rest with
        | error e => simp
        | ok docs => cases doc <;> simp
  obtain ⟨cs, hcs⟩ := hrest keyVal []
  refine ⟨cs, hcs.trans ?_⟩
  rw [put_eq_sendBatch]
  cases collect (createCouchDoc srv db) keyVal with
  | error e => rfl
  | ok docs => rfl

/-- So does a `DeleteExpiredKeys`. -/
theorem run_deleteExpiredKeys_alone (srv : Server) (db : Database) (now : Time) :
    ∃ cs, run (Pool.go (next srv)) ⟨db, {.deleteExpiredKeys now}, []⟩ cs =
      ⟨(deleteExpiredKeys srv db now).1, 0,
        [.deleteExpiredKeys (deleteExpiredKeys srv db now).2]⟩ := by
  have hsend : deleteExpiredKeys srv db now = sendBatch srv db
      ((db.toList.filter fun p => isExpired now p.2).map fun p => expiryData p.1 p.2) := by
    rw [deleteExpiredKeys]
    generalize (db.toList.filter fun p => isExpired now p.2).map _ = docs
    cases docs with
    | nil => rfl
    | cons doc docs => rfl
  refine ⟨[.deleteExpiredKeys now, .deleting
    ((db.toList.filter fun p => isExpired now p.2).map fun p => expiryData p.1 p.2)], ?_⟩
  rw [hsend, run, List.foldl_cons, Pool.go_single, List.foldl_cons, List.foldl_nil]
  exact Pool.go_single (next srv) db (.deleting _) []

/-! ## One document -/

section
variable {srv : Server} {db db' : Database} {kv : KeyValue} {revision : GoString}

variable {value : Option Value} {docType : DocType}

variable {key : GoString} {m : JsonMap} {made : List Made}

/-- The fields of the value are not the server's. -/
theorem get_setValueFields_special {k : Text}
    (hk : isSpecial k = true) : (setValueFields m value).get k = m.get k := by
  cases value with
  | none => rfl
  | some v =>
    have hexp : k ≠ expiryField := fun h => by subst h; cases hk
    have htxn : k ≠ txnIDField := fun h => by subst h; cases hk
    rw [setValueFields, OrderedMap.get_set_ne hexp, OrderedMap.get_set_ne htxn]

theorem get_setValueFields_congr {m' : JsonMap} {k : Text} (h : m.get k = m'.get k)
    (value : Option Value) :
    (setValueFields m value).get k = (setValueFields m' value).get k := by
  cases value with
  | none => exact h
  | some v =>
    simp only [setValueFields, OrderedMap.get_set, h]

theorem get_idName_withFields :
    (withFields m docType key revision value).get idName = some (.string (toText key)) := by
  rw [get_withFields_before, if_neg fun h => absurd h.1 (by decide),
    get_setValueFields_special rfl]
  exact OrderedMap.get_set_self _ _ _

theorem get_revName_withFields :
    (withFields m docType key revision value).get revName =
      if revision ≠ [] then some (.string (toText revision)) else m.get revName := by
  rw [get_withFields_before, get_setValueFields_special rfl, OrderedMap.get_set_ne (by decide),
    setDeleted]
  have hdel : ((if docType = .typeDelete then m.set deletedField (.bool true) else m :
      JsonMap)).get revName = m.get revName := by
    split
    next => exact OrderedMap.get_set_ne (by decide) _ _
    next => rfl
  rw [hdel]
  simp

/-- Without the server's members, a document has those of the value. -/
theorem restrict_withFields (hm : Json.IsMap m) :
    (literals (withFields m docType key revision value)).restrict (fun name => !isSpecial name) =
      (literals (setValueFields m value)).restrict fun name => !isSpecial name := by
  have hval : Json.IsMap (setValueFields m value) := by
    cases value with
    | none => exact hm
    | some v => exact (hm.set rfl).set rfl
  refine OrderedMap.Ordered.ext
    (isMap_literals (isMap_withFields hm docType key revision value)).restrict.ordered
    (isMap_literals hval).restrict.ordered fun k => ?_
  rw [OrderedMap.get_restrict, OrderedMap.get_restrict]
  cases hk : isSpecial k with
  | true => rfl
  | false =>
    have hne : ∀ {special : Text}, isSpecial special = true → k ≠ special := by
      rintro special hs rfl
      exact Bool.false_ne_true (hk.symm.trans hs)
    have hdel : ((setDeleted m docType).set idField (.string (toText key))).get k = m.get k := by
      rw [OrderedMap.get_set_ne (hne rfl), setDeleted]
      split
      next => exact OrderedMap.get_set_ne (hne rfl) _ _
      next => rfl
    have hkeep : (!false) = true := rfl
    rw [if_pos hkeep, if_pos hkeep, get_literals, get_literals, get_withFields_before,
      if_neg fun h => hne rfl h.1, get_setValueFields_congr hdel]

/-- Whatever the revision, the document is that of the key. -/
theorem id_of_couchDocOf {doc : CouchDoc} (hdoc : couchDocOf kv revision = .ok (some doc))
    {u : Update} (hu : srv.readUpdate doc = .ok u) : u.id = toText kv.key := by
  obtain ⟨m, docType, hjson, rfl⟩ := couchDocOf_inv hdoc
  have hmap := isMap_literals
    (isMap_withFields (jsonMapFromValue_inv hjson).1 docType kv.key revision kv.value)
  obtain ⟨-, -, hid, -⟩ := Server.readUpdate_inv hu
  rw [hmap.toMap_eq, get_literals, get_idName_withFields] at hid
  exact (Option.some.inj hid).symm

theorem get_deletedName_withFields_of_ne (hdoc : docType ≠ .typeDelete) :
    (withFields m docType key revision value).get deletedName = m.get deletedName := by
  rw [get_withFields_before, if_neg fun h => absurd h.1 (by decide),
    get_setValueFields_special rfl, OrderedMap.get_set_ne (by decide), setDeleted, if_neg hdoc]

/-- A document made from the current revision is stored with what the key-value says. -/
theorem update_of_current (hdb : WellFormed srv db) {doc : CouchDoc}
    (hdoc : couchDocOf kv (revisionOf (db.lookup (toText kv.key))) = .ok (some doc))
    (hund : ∀ m docType, jsonMapFromValue kv.value = .ok (some m, docType) →
      Undisturbed (db.lookup (toText kv.key)) m)
    {u : Update} (hu : srv.readUpdate doc = .ok u) :
    currentRev db (toText kv.key) = u.rev ∧
      (if u.deleted then none else some (u.members, u.attachments)) = contentOf kv := by
  obtain ⟨m, docType, hjson, rfl⟩ := couchDocOf_inv hdoc
  have hm := (jsonMapFromValue_inv hjson).1
  obtain ⟨hnotDeleted, hnoRev⟩ := hund m docType hjson
  have hmap := isMap_literals (isMap_withFields hm docType kv.key
    (revisionOf (db.lookup (toText kv.key))) kv.value)
  obtain ⟨hmembers, hdel, -, hrev, hatt⟩ := Server.readUpdate_inv hu
  rw [hmap.toMap_eq] at hmembers hdel hrev
  constructor
  · rw [hrev, get_literals, get_revName_withFields, currentRev]
    cases hl : db.lookup (toText kv.key) with
    | none =>
      rw [hl] at hnoRev
      have hnone := hnoRev.resolve_left (by simp)
      simp [revisionOf, hnone]
    | some d =>
      have hne : revisionOf (some d) ≠ [] := ofText_ne_nil (hdb _ _ hl).rev_ne_nil
      rw [if_pos hne]
      exact congrArg some (toText_ofText d.rev).symm
  · rw [contentOf, hjson]
    dsimp only
    by_cases htype : docType = .typeDelete
    · have hdeleted : u.deleted = true := by
        rw [hdel, get_literals, htype, get_deletedName_withFields]
        rfl
      rw [if_pos hdeleted, if_pos htype]
    · have hkept : ¬ u.deleted = true := by
        rw [hdel, get_literals, get_deletedName_withFields_of_ne htype, Option.bind_map]
        intro hbool
        refine hnotDeleted (Eq.trans ?_ hbool)
        exact Option.bind_congr fun j _ => (asBool_subst keepsKinds_literal j).symm
      rw [if_neg hkept, if_neg htype, hmembers, restrict_withFields hm, hatt]
      split
      next => rfl
      next => rfl

/-- A key-value without a document deletes what is not there. -/
theorem absent_of_current (hdb : WellFormed srv db)
    (hdoc : couchDocOf kv (revisionOf (db.lookup (toText kv.key))) = .ok none) :
    db.lookup (toText kv.key) = none ∧ contentOf kv = none := by
  rw [couchDocOf] at hdoc
  split at hdoc
  next => cases hdoc
  next hmap =>
    rw [newJSONMap] at hmap
    split at hmap
    next => cases hmap
    next m docType hjson =>
      split at hmap
      next hempty =>
        constructor
        · cases hl : db.lookup (toText kv.key) with
          | none => rfl
          | some d =>
            rw [hl] at hempty
            exact absurd hempty.2 (ofText_ne_nil (hdb _ _ hl).rev_ne_nil)
        · rw [contentOf, hjson]
          cases m with
          | none => rfl
          | some m => exact if_pos hempty.1
      next =>
        split at hmap
        next => cases hmap
        next => cases hmap
  next => cases hdoc

/-! ## A batch -/

theorem sendBatch_ok {docs : List CouchDoc} (h : sendBatch srv db docs = (db', .ok ())) :
    ∃ us, collect srv.readUpdate docs = .ok us ∧ db' = us.foldl srv.update db := by
  cases docs with
  | nil =>
    cases h
    exact ⟨[], rfl, rfl⟩
  | cons doc docs =>
    rw [sendBatch, Server.batchUpdateDocuments] at h
    cases hus : collect srv.readUpdate (doc :: docs) with
    | error e =>
      rw [hus] at h
      cases h
    | ok us =>
      rw [hus] at h
      cases h
      exact ⟨us, rfl, rfl⟩

def MadeFrom (made : List Made) : Prop := ∀ p ∈ made, ∃ revision, couchDocOf p.1 revision = .ok p.2

theorem ids_of_madeFrom (hmade : MadeFrom made) {id : Text}
    (hid : ∀ p ∈ made, toText p.1.key = id → p.2 = none) {us : List Update}
    (hus : collect srv.readUpdate (made.filterMap Prod.snd) = .ok us) : ∀ u ∈ us, u.id ≠ id := by
  intro u hu heq
  obtain ⟨doc, hdoc, hread⟩ := (mem_of_collect hus u).mp hu
  obtain ⟨p, hp, hpdoc⟩ := List.mem_filterMap.mp hdoc
  obtain ⟨revision, hmadep⟩ := hmade p hp
  rw [hpdoc] at hmadep
  have hnone := hid p hp ((id_of_couchDocOf hmadep hread).symm.trans heq)
  cases hpdoc.symm.trans hnone

/-- A batch that is current stores the last value of each key. -/
theorem stored_of_current (hdb : WellFormed srv db) (hmade : MadeFrom made)
    (hcur : Current db made) (h : sendBatch srv db (made.filterMap Prod.snd) = (db', .ok ()))
    (hlast : IsLast (made.map Prod.fst) kv) : Stored db' kv := by
  obtain ⟨us, hus, rfl⟩ := sendBatch_ok h
  obtain ⟨before, after, hsplit, hafter⟩ := hlast
  obtain ⟨mbefore, mrest, rfl, rfl, hrest⟩ := List.map_eq_append_iff.mp hsplit
  obtain ⟨⟨kv', doc⟩, mafter, rfl, rfl, rfl⟩ := List.map_eq_cons_iff.mp hrest
  rw [List.map_map] at hafter
  obtain ⟨hdoc, hothers, hund⟩ := hcur mbefore kv' doc mafter rfl hafter
  have hmadeB : MadeFrom mbefore := fun p hp => hmade p (List.mem_append_left _ hp)
  have hmadeA : MadeFrom mafter := fun p hp =>
    hmade p (List.mem_append_right _ (List.mem_cons_of_mem _ hp))
  rw [List.filterMap_append] at hus
  obtain ⟨usB, usR, husB, husR, rfl⟩ := collect_append_ok hus
  have hB := ids_of_madeFrom hmadeB (fun p hp => hothers p (List.mem_append_left _ hp)) husB
  rw [Stored]
  cases doc with
  | none =>
    have hA := ids_of_madeFrom hmadeA (fun p hp => hothers p (List.mem_append_right _ hp)) husR
    obtain ⟨habsent, hcontent⟩ := absent_of_current hdb hdoc
    have hne : ∀ u ∈ usB ++ usR, u.id ≠ toText kv'.key := fun u hu =>
      (List.mem_append.mp hu).elim (hB u) (hA u)
    rw [Server.lookup_updates_of_ne hne, habsent, hcontent]
    rfl
  | some doc =>
    obtain ⟨u, usA, hu, husA, rfl⟩ := collect_cons_ok.mp husR
    have hA := ids_of_madeFrom hmadeA (fun p hp => hothers p (List.mem_append_right _ hp)) husA
    have hid := id_of_couchDocOf hdoc hu
    obtain ⟨hrev, hcontent⟩ := update_of_current hdb hdoc hund hu
    rw [← hid] at hB hA hrev ⊢
    rw [Server.lookup_updates hB hA hrev, ← hcontent]
    cases u.deleted with
    | true => rfl
    | false => rfl

/-- A batch of sound documents keeps the database well formed. -/
theorem wellFormed_sendBatch (hdb : WellFormed srv db) {docs : List CouchDoc}
    (hdocs : ∀ doc ∈ docs, ∀ u, srv.readUpdate doc = .ok u → Sound u) :
    WellFormed srv (sendBatch srv db docs).1 := by
  cases docs with
  | nil => exact hdb
  | cons doc docs =>
    rw [sendBatch]
    cases hbatch : srv.batchUpdateDocuments db (doc :: docs) with
    | error msg => exact hdb
    | ok db' => exact wellFormed_batch hdb hdocs hbatch

theorem MadeFrom.sound (h : MadeFrom made) :
    ∀ doc ∈ made.filterMap Prod.snd, ∀ u, srv.readUpdate doc = .ok u → Sound u := by
  intro doc hdoc u hu
  obtain ⟨p, hp, hpdoc⟩ := List.mem_filterMap.mp hdoc
  obtain ⟨revision, hmade⟩ := h p hp
  exact sound_couchDocOf (hmade.trans (congrArg Except.ok hpdoc)) hu

end

/-! ## Runs -/

section
variable {srv : Server} {p : Pool Database Place Outcome}

def Place.Fits : Place → Prop
  | .put made _ => MadeFrom made
  | .deleteExpiredKeys _ => True
  | .deleting docs => ∀ doc ∈ docs, ∃ id d, doc = expiryData id d

/-- The documents of the database are well formed, those on their way are the store's, and no
write is lost. -/
structure Kept (srv : Server) (p : Pool Database Place Outcome) : Prop where
  wellFormed : WellFormed srv p.shared
  places : ∀ c ∈ p.calls, c.Fits
  noLostWrite : NoLostWrite p

theorem Kept.start (h : Kept srv p) {c : Place} (hc : c.Fits) : Kept srv (p.start c) where
  wellFormed := h.wellFormed
  places c' hc' := (Multiset.mem_cons.mp hc').elim (fun he => he ▸ hc) (h.places c')
  noLostWrite := h.noLostWrite

/-- A step that goes on leaves the database as it is. -/
theorem Kept.goTo (h : Kept srv p) (c : Place) {c' : Place} (hc' : c'.Fits) :
    Kept srv (p.leave c p.shared (.goTo c')) where
  wellFormed := h.wellFormed
  places x hx := by
    rcases Pool.mem_of_mem_leave hx with heq | hold
    · cases heq
      exact hc'
    · exact h.places x hold
  noLostWrite := h.noLostWrite

theorem Kept.ret (h : Kept srv p) (c : Place) {db : Database} (hdb : WellFormed srv db)
    {outcome : Outcome} (hstored : ∀ keyVal db', outcome = .put keyVal db' (.ok ()) →
      ∀ kv, IsLast keyVal kv → Stored db' kv) :
    Kept srv (p.leave c db (.ret outcome)) where
  wellFormed := hdb
  places x hx := by
    rcases Pool.mem_of_mem_leave hx with heq | hold
    · cases heq
    · exact h.places x hold
  noLostWrite keyVal db' hmem :=
    (List.mem_cons.mp hmem).elim (fun heq => hstored keyVal db' heq.symm)
      (h.noLostWrite keyVal db')

theorem Kept.go (h : Kept srv p) {c : Place} (hok : SendsCurrent p (.go c)) :
    Kept srv (p.go (next srv) c) := by
  rcases Pool.go_cases (next srv) p c with ⟨hsame, -⟩ | ⟨db, n, hmem, hnext, hgo⟩
  · rwa [hsame]
  · rw [hgo]
    have hfits := h.places c hmem
    cases c with
    | put made rest =>
      cases rest with
      | nil =>
        obtain ⟨rfl, rfl⟩ := Prod.mk.inj (Option.some.inj hnext)
        refine h.ret _ (wellFormed_sendBatch h.wellFormed (MadeFrom.sound hfits)) ?_
        intro keyVal db' heq kv hlast
        obtain ⟨rfl, rfl, hresult⟩ := Outcome.put.inj heq
        exact stored_of_current h.wellFormed hfits (hok hmem) (Prod.ext rfl hresult) hlast
      | cons kv rest =>
        rw [next] at hnext
        split at hnext
        next e _ =>
          obtain ⟨rfl, rfl⟩ := Prod.mk.inj (Option.some.inj hnext)
          refine h.ret _ h.wellFormed fun keyVal db' heq => ?_
          cases (Outcome.put.inj heq).2.2
        next doc hdoc =>
          obtain ⟨rfl, rfl⟩ := Prod.mk.inj (Option.some.inj hnext)
          refine h.goTo _ fun q hq => ?_
          rcases List.mem_append.mp hq with hold | hnew
          · exact hfits q hold
          · obtain rfl := List.mem_singleton.mp hnew
            obtain ⟨revision, -, hmade⟩ := createCouchDoc_ok hdoc
            exact ⟨revision, hmade⟩
    | deleteExpiredKeys now =>
      obtain ⟨rfl, rfl⟩ := Prod.mk.inj (Option.some.inj hnext)
      refine h.goTo _ fun doc hdoc => ?_
      obtain ⟨q, -, rfl⟩ := List.mem_map.mp hdoc
      exact ⟨q.1, q.2, rfl⟩
    | deleting docs =>
      obtain ⟨rfl, rfl⟩ := Prod.mk.inj (Option.some.inj hnext)
      refine h.ret _ (wellFormed_sendBatch h.wellFormed fun doc hdoc u hu => ?_) nofun
      obtain ⟨id, d, rfl⟩ := hfits doc hdoc
      exact sound_expiryData hu

theorem Kept.step (h : Kept srv p) {step : Step} (hok : SendsCurrent p step) :
    Kept srv (writersStep srv p step) := by
  cases step with
  | call request =>
    cases request with
    | put keyVal => exact h.start fun q hq => by cases hq
    | deleteExpiredKeys now => exact h.start trivial
  | go c => exact h.go hok

theorem kept_noWriters : Kept srv noWriters where
  wellFormed _ _ hl := by cases hl
  places _ hc := absurd hc (Multiset.notMem_zero _)
  noLostWrite _ _ hmem := by cases hmem

end

/-- In every interleaving in which the batches of `Put` are current when they are sent, a
`Put` that returns no error has stored its values. -/
theorem noLostWrite_of_current (srv : Server) {steps : List Step}
    (h : Meets (writersStep srv) SendsCurrent noWriters steps) :
    NoLostWrite (run (writersStep srv) noWriters steps) :=
  (run_invariant (P := Kept srv) (fun _ _ hp hok => hp.step hok) kept_noWriters h).noLostWrite

def keyK (value : Bytes) : KeyValue := newKeyValue [107] (some value) [116] .zero

def docK (value : Bytes) : CouchDoc :=
  ⟨Json.render (.object [(idName, .string ['k']), (expiryField, .number (Number.ofInt 0)),
    (txnIDField, .string ['t'])]), some [asAttachment value]⟩

theorem current_docK : Current ∅ [(keyK [1], some (docK [1]))] := by
  intro before kv doc after hsplit _
  cases before with
  | nil =>
    obtain ⟨heq, rfl⟩ := List.cons.inj hsplit
    cases heq
    refine ⟨rfl, fun p hp => absurd hp List.not_mem_nil, fun m docType hjson => ?_⟩
    have hm : some [] = some m := congrArg Prod.fst (Except.ok.inj hjson)
    obtain rfl := Option.some.inj hm
    exact ⟨nofun, .inr rfl⟩
  | cons p before =>
    have hlen := congrArg List.length hsplit
    simp at hlen

/-- A `Put`, and expired keys that are deleted at the same time. -/
theorem noLostWrite_oneWriter :
    let p := run (writersStep growingServer) noWriters
      [.call (.put [keyK [1]]), .call (.deleteExpiredKeys .zero), .go (.put [] [keyK [1]]),
        .go (.deleteExpiredKeys .zero), .go (.put [(keyK [1], some (docK [1]))] []),
        .go (.deleting [])]
    p.calls = 0 ∧ NoLostWrite p :=
  ⟨rfl, noLostWrite_of_current growingServer
    ⟨trivial, trivial, trivial, trivial, fun _ => current_docK, trivial, trivial⟩⟩

/-- Two values of a key in one batch: the first one is stored. Two calls with a value of a key
each: both read that there is none, and the second value is lost. -/
theorem not_noLostWrite_sameKey :
    ¬ NoLostWrite (run (writersStep growingServer) noWriters
      [.call (.put [keyK [1], keyK [2]]), .go (.put [] [keyK [1], keyK [2]]),
        .go (.put [(keyK [1], some (docK [1]))] [keyK [2]]),
        .go (.put [(keyK [1], some (docK [1])), (keyK [2], some (docK [2]))] [])]) ∧
    ¬ NoLostWrite (run (writersStep growingServer) noWriters
      [.call (.put [keyK [1]]), .call (.put [keyK [2]]), .go (.put [] [keyK [1]]),
        .go (.put [] [keyK [2]]), .go (.put [(keyK [1], some (docK [1]))] []),
        .go (.put [(keyK [2], some (docK [2]))] [])]) := by
  constructor
  · intro h
    have hstored := h [keyK [1], keyK [2]] _ List.mem_cons_self (keyK [2])
      ⟨[keyK [1]], [], rfl, List.not_mem_nil⟩
    exact absurd (congrArg (Option.map Prod.snd) hstored) (by decide)
  · intro h
    have hstored := h [keyK [2]] _ List.mem_cons_self (keyK [2]) ⟨[], [], rfl, List.not_mem_nil⟩
    exact absurd (congrArg (Option.map Prod.snd) hstored) (by decide)

end FabricPeerExt.Offledger.CouchDBStore
