/-
FabricPeerExt.Lib.CouchDB — a CouchDB database and the client of Fabric for it.

Members whose name begins with an underscore are the server's. An update made from another
revision than the stored one changes nothing. What the server decides on its own is a parameter.
-/
import FabricPeerExt.Lib.JsonTheorems
import FabricPeerExt.Lib.KeyValue
import FabricPeerExt.Lib.Run

namespace FabricPeerExt.Lib.CouchDB

def idName : Text := ['_', 'i', 'd']

def revName : Text := ['_', 'r', 'e', 'v']

def deletedName : Text := ['_', 'd', 'e', 'l', 'e', 't', 'e', 'd']

def attachmentsName : Text := ['_', 'a', 't', 't', 'a', 'c', 'h', 'm', 'e', 'n', 't', 's']

structure Attachment where
  name : Text
  contentType : Text
  attachmentBytes : Bytes
  deriving DecidableEq

/-- `couchdb.CouchDoc`: a document on its way, as a text; `none` is a nil slice. -/
structure CouchDoc where
  jsonValue : Bytes
  attachments : Option (List Attachment)
  deriving DecidableEq

/-- What a server decides on its own. -/
structure Server where
  validID : Text → Bool
  isRevision : Text → Bool
  nextRevision : Option Text → Text
  ignores : Text → Bool
  isRevision_nil : isRevision [] = false
  isRevision_nextRevision : ∀ rev, isRevision (nextRevision rev) = true

/-- A stored document: its revision, the members that are not the server's, and the
attachments. -/
structure Document where
  rev : Text
  members : OrderedMap Text (Json Number)
  attachments : List Attachment

abbrev Database := GoMap Text Document

structure Update where
  id : Text
  rev : Option Text
  deleted : Bool
  members : OrderedMap Text (Json Number)
  attachments : List Attachment

def isSpecial (name : Text) : Bool := name.head? = some '_'

def currentRev (db : Database) (id : Text) : Option Text := (db.lookup id).map Document.rev

namespace Server

variable (srv : Server)

def accepts {ν : Type} (name : Text) (j : Json ν) : Bool :=
  if name = idName then j.asString.any srv.validID
  else if name = revName then j.asString.any srv.isRevision
  else if name = deletedName then j.asBool.isSome
  else if name = attachmentsName then true
  else !isSpecial name || srv.ignores name

/-- The update in a document. The client puts the attachments in the place of a member of
their name. -/
def readUpdate (doc : CouchDoc) : Except String Update :=
  match Json.parse doc.jsonValue with
  | some (.object members) =>
    let m := Json.toMap members
    if m.all fun p => srv.accepts p.1 p.2 then
      match (m.get idName).bind Json.asString with
      | none => .error "Document must have an ID"
      | some id =>
        .ok ⟨id, (m.get revName).bind Json.asString,
          (m.get deletedName).bind Json.asBool = some true,
          m.restrict fun name => !isSpecial name, doc.attachments.getD []⟩
    else .error "Bad special document member"
  | _ => .error "Document must be a JSON object"

def update (db : Database) (u : Update) : Database :=
  if currentRev db u.id = u.rev then
    if u.deleted then db.erase u.id
    else db.insert u.id ⟨srv.nextRevision u.rev, u.members, u.attachments⟩
  else db

/-- `BatchUpdateDocuments`, without the responses to the single updates. -/
def batchUpdateDocuments (db : Database) (docs : List CouchDoc) : Except String Database :=
  (collect srv.readUpdate docs).map (List.foldl srv.update db)

def jsonValue (id : Text) (doc : Document) : Bytes :=
  Json.render (.object ((doc.members.set idName (.string id)).set revName (.string doc.rev)))

def readDoc (db : Database) (id : Bytes) : Except String (Option CouchDoc) :=
  if validString id then
    if srv.validID (toText id) then
      .ok ((db.lookup (toText id)).map fun doc =>
        ⟨jsonValue (toText id) doc, if doc.attachments = [] then none else some doc.attachments⟩)
    else .error "error handling CouchDB request"
  else .error "doc id is not a valid utf8 string"

/-! ## Reading an update -/

variable {srv}

/-- What an update says about the document. -/
theorem readUpdate_inv {members : List (Text × Json Number)}
    {attachments : Option (List Attachment)} {u : Update}
    (h : srv.readUpdate ⟨Json.render (.object members), attachments⟩ = .ok u) :
    u.members = (Json.toMap members).restrict (fun name => !isSpecial name) ∧
      (u.deleted = true ↔
        ((Json.toMap members).get deletedName).bind Json.asBool = some true) ∧
      ((Json.toMap members).get idName).bind Json.asString = some u.id ∧
      u.rev = ((Json.toMap members).get revName).bind Json.asString ∧
      u.attachments = attachments.getD [] := by
  rw [readUpdate, Json.parse_render] at h
  dsimp only at h
  split at h
  next =>
    cases hid : ((Json.toMap members).get idName).bind Json.asString with
    | none =>
      rw [hid] at h
      cases h
    | some id =>
      rw [hid] at h
      cases h
      exact ⟨rfl, decide_eq_true_iff, rfl, rfl, rfl⟩
  next => cases h

theorem lookup_update (db : Database) (u : Update) (id : Text) :
    (srv.update db u).lookup id =
      if id = u.id ∧ currentRev db u.id = u.rev then
        (if u.deleted then none else some ⟨srv.nextRevision u.rev, u.members, u.attachments⟩)
      else db.lookup id := by
  rw [update]
  by_cases hrev : currentRev db u.id = u.rev
  · rw [if_pos hrev]
    cases u.deleted with
    | true =>
      rw [if_pos rfl, if_pos rfl, GoMap.lookup_erase_eq]
      by_cases hid : id = u.id <;> simp [hid, hrev]
    | false =>
      rw [if_neg Bool.false_ne_true, if_neg Bool.false_ne_true, GoMap.lookup_insert_eq]
      by_cases hid : id = u.id <;> simp [hid, hrev]
  · rw [if_neg hrev, if_neg fun h => hrev h.2]

/-- Updates of other documents. -/
theorem lookup_updates_of_ne {us : List Update} {id : Text} (h : ∀ u ∈ us, u.id ≠ id)
    (db : Database) : (us.foldl srv.update db).lookup id = db.lookup id := by
  induction us generalizing db with
  | nil => rfl
  | cons u us ih =>
    rw [List.foldl_cons, ih fun u' hu' => h u' (List.mem_cons_of_mem u hu'), lookup_update,
      if_neg fun hid => h u List.mem_cons_self hid.1.symm]

/-- The only update of a document in a batch, made from the current revision, is carried
out. -/
theorem lookup_updates {us vs : List Update} {u : Update} (hus : ∀ u' ∈ us, u'.id ≠ u.id)
    (hvs : ∀ u' ∈ vs, u'.id ≠ u.id) {db : Database} (hrev : currentRev db u.id = u.rev) :
    ((us ++ u :: vs).foldl srv.update db).lookup u.id =
      if u.deleted then none else some ⟨srv.nextRevision u.rev, u.members, u.attachments⟩ := by
  have hcur : currentRev (us.foldl srv.update db) u.id = u.rev := by
    rw [currentRev, lookup_updates_of_ne hus]
    exact hrev
  rw [List.foldl_append, List.foldl_cons, lookup_updates_of_ne hvs, lookup_update,
    if_pos ⟨rfl, hcur⟩]

end Server

end FabricPeerExt.Lib.CouchDB
