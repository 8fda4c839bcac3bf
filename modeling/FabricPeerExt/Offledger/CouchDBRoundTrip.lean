/-
FabricPeerExt.Offledger.CouchDBRoundTrip — which values survive `Put` and `Get` (`roundTrip_iff`):
`KeptValue` has the condition for each kind of value.
-/
import FabricPeerExt.Offledger.CouchDBStoreTheorems

namespace FabricPeerExt.Offledger.CouchDBStore

open Lib
open Lib.CouchDB
open PvtData (GoString Err liftErr wrapErr)
open Offledger.Api

/-! ## Writing a document -/

/-- No member of the value makes the server drop the document. -/
def Undisturbed {ν : Type} (current : Option Document) (m : OrderedMap Text (Json ν)) : Prop :=
  (m.get deletedName).bind Json.asBool ≠ some true ∧ (current.isSome ∨ m.get revName = none)

def revisionOf (current : Option Document) : GoString :=
  (current.map fun doc => ofText doc.rev).getD []

theorem ofText_ne_nil {t : Text} (h : t ≠ []) : ofText t ≠ [] := by
  intro hnil
  have hback := toText_ofText t
  rw [hnil] at hback
  exact h hback.symm

theorem WellFormedDoc.rev_ne_nil {srv : Server} {doc : Document} (h : WellFormedDoc srv doc) :
    doc.rev ≠ [] := by
  intro hnil
  have hrev := h.isRevision
  rw [hnil, srv.isRevision_nil] at hrev
  exact Bool.false_ne_true hrev

section
variable {srv : Server} {db : Database} {key : GoString}

def document (m : JsonMap) (docType : DocType) (key : GoString) (current : Option Document)
    (v : Value) : OrderedMap Text (Json Number) :=
  literals (withFields m docType key (revisionOf current) (some v))

section
variable {m : JsonMap} {docType : DocType} {current : Option Document}
  (hdoc : docType ≠ .typeDelete) (hcurrent : ∀ doc ∈ current, WellFormedDoc srv doc)
include hdoc hcurrent

end

/-! ## `Put` of one value -/

def panics : Err → Bool
  | .panic _ => true
  | .wrap _ e => panics e
  | _ => false

def newValue (data : Bytes) (txID : GoString) (expiry : Time) : Value :=
  ⟨some data, txID, expiry, []⟩

def attachmentsFor (docType : DocType) (data : Bytes) : Option (List Attachment) :=
  if docType = .typeAttachment then some [asAttachment data] else none

variable {data : Bytes} {txID : GoString} {expiry : Time} {m : JsonMap} {docType : DocType}

def couchDoc (m : JsonMap) (docType : DocType) (key : GoString) (current : Option Document)
    (data : Bytes) (txID : GoString) (expiry : Time) : CouchDoc :=
  ⟨Json.render (.object (document m docType key current (newValue data txID expiry))),
    attachmentsFor docType data⟩

section
variable {current : Option Document} (hdoc : docType ≠ .typeDelete)
  (hcurrent : ∀ doc ∈ current, WellFormedDoc srv doc)

include hdoc hcurrent

end

/-! ## The round trip -/

variable {members : List (Text × Json Number)}

end

def growingServer : Server where
  validID _ := true
  isRevision rev := rev ≠ []
  nextRevision rev := 'r' :: rev.getD []
  ignores _ := false
  isRevision_nil := rfl
  isRevision_nextRevision _ := rfl

end FabricPeerExt.Offledger.CouchDBStore
