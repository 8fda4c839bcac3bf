/-
FabricPeerExt.Lib.DocStore — a document database with revisions: an update is accepted only if it
names the stored one. A bulk request is one such update after another.
-/
import FabricPeerExt.Lib.KeyValue

namespace FabricPeerExt.Lib

structure StoredDoc (β : Type) where
  rev : Nat
  body : β
  deriving DecidableEq

structure Doc (β : Type) where
  id : Bytes
  rev : Option Nat
  deleted : Bool
  body : β
  deriving DecidableEq

abbrev DocStore (β : Type) := GoMap Bytes (StoredDoc β)

namespace DocStore

variable {β : Type}

def currentRev (db : DocStore β) (id : Bytes) : Option Nat := (db.lookup id).map StoredDoc.rev

def outcome (doc : Doc β) : Option (StoredDoc β) :=
  if doc.deleted then none else some ⟨doc.rev.getD 0 + 1, doc.body⟩

def put (db : DocStore β) (doc : Doc β) : DocStore β :=
  if currentRev db doc.id = doc.rev then
    match outcome doc with
    | none => db.erase doc.id
    | some d => db.insert doc.id d
  else db

def bulk (db : DocStore β) (docs : List (Doc β)) : DocStore β := docs.foldl put db

theorem lookup_put (db : DocStore β) (doc : Doc β) (id : Bytes) :
    (put db doc).lookup id =
      if id = doc.id ∧ currentRev db doc.id = doc.rev then outcome doc else db.lookup id := by
  unfold put
  by_cases hrev : currentRev db doc.id = doc.rev
  · rw [if_pos hrev]
    cases ho : outcome doc with
    | none =>
      rw [GoMap.lookup_erase_eq]
      by_cases hid : id = doc.id <;> simp [hid, hrev]
    | some d =>
      rw [GoMap.lookup_insert_eq]
      by_cases hid : id = doc.id <;> simp [hid, hrev]
  · rw [if_neg hrev, if_neg (fun h => hrev h.2)]

theorem lookup_put_ne {db : DocStore β} {doc : Doc β} {id : Bytes} (h : id ≠ doc.id) :
    (put db doc).lookup id = db.lookup id := by
  rw [lookup_put, if_neg (fun hc => h hc.1)]

/-- An update made from the stored revision is accepted. -/
theorem lookup_put_of_rev {db : DocStore β} {doc : Doc β}
    (h : currentRev db doc.id = doc.rev) : (put db doc).lookup doc.id = outcome doc := by
  rw [lookup_put, if_pos ⟨rfl, h⟩]

/-- A document that no update of the request names is unchanged. -/
theorem lookup_bulk_of_notMem {docs : List (Doc β)} {id : Bytes} :
    ∀ {db : DocStore β}, id ∉ docs.map Doc.id → (bulk db docs).lookup id = db.lookup id := by
  induction docs with
  | nil => intro db _; rfl
  | cons doc docs ih =>
    intro db h
    rw [List.map_cons, List.mem_cons, not_or] at h
    exact (ih h.2).trans (lookup_put_ne h.1)

/-- Each document of a request fares as if it had been sent alone. -/
theorem lookup_bulk {docs : List (Doc β)} (hids : (docs.map Doc.id).Nodup) {doc : Doc β}
    (hdoc : doc ∈ docs) :
    ∀ db : DocStore β, (bulk db docs).lookup doc.id = (put db doc).lookup doc.id := by
  induction docs with
  | nil => cases hdoc
  | cons d docs ih =>
    intro db
    rw [List.map_cons, List.nodup_cons] at hids
    rcases List.mem_cons.mp hdoc with rfl | hmem
    · exact lookup_bulk_of_notMem hids.1
    · have hne : doc.id ≠ d.id := fun he =>
        hids.1 (he ▸ List.mem_map_of_mem hmem)
      have hsame : (put db d).lookup doc.id = db.lookup doc.id := lookup_put_ne hne
      have hstep : bulk db (d :: docs) = bulk (put db d) docs := rfl
      rw [hstep, ih hids.2 hmem (put db d), lookup_put (put db d) doc, lookup_put db doc,
        currentRev, currentRev, hsame]

/-- A request of new documents leaves what is there, and of several documents with one id the
first one counts. -/
theorem map_body_lookup_bulk_new : ∀ {docs : List (Doc β)} {db : DocStore β} (id : Bytes),
    (∀ doc ∈ docs, doc.rev = none ∧ doc.deleted = false) →
    ((bulk db docs).lookup id).map StoredDoc.body =
      ((db.lookup id).map StoredDoc.body).or
        ((docs.find? fun doc => doc.id = id).map Doc.body)
  | [], db, id, _ => by simp [bulk]
  | doc :: docs, db, id, h => by
    obtain ⟨hrev, hdel⟩ := h doc List.mem_cons_self
    have hstep : bulk db (doc :: docs) = bulk (put db doc) docs := rfl
    rw [hstep, map_body_lookup_bulk_new id fun d hd => h d (List.mem_cons_of_mem doc hd),
      lookup_put, List.find?_cons]
    by_cases hid : doc.id = id
    · subst hid
      cases hl : db.lookup doc.id with
      | none => simp [currentRev, hl, hrev, outcome, hdel]
      | some d => simp [currentRev, hl, hrev]
    · simp [hid, Ne.symm hid]

end DocStore

end FabricPeerExt.Lib
