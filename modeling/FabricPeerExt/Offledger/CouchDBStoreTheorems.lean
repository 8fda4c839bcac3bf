/-
FabricPeerExt.Offledger.CouchDBStoreTheorems — the documents that the store reads and writes,
compared through their lookups.
-/
import FabricPeerExt.Offledger.CouchDBStore

namespace FabricPeerExt.Offledger.CouchDBStore

open Lib
open Lib.CouchDB
open PvtData (GoString Err liftErr wrapErr)
open Offledger.Api

/-! ## The fields of a document -/

def literals (m : JsonMap) : OrderedMap Text (Json Number) :=
  m.mapValues (Json.map GoNumber.literal)

theorem object_literals (m : JsonMap) :
    Json.object (literals m) = (Json.object m).map GoNumber.literal := by
  rw [Json.map, Json.subst, Json.substMembers_eq]
  rfl

theorem toBytes_some (m : JsonMap) : toBytes (some m) = Json.render (.object (literals m)) := by
  rw [toBytes, object_literals]

variable {doc : Document} {key revision : GoString} {m : JsonMap} {kv : KeyValue} {u : Update}

theorem isMap_literals (h : Json.IsMap m) : Json.IsMap (literals m) :=
  h.mapValues fun _ => rfl

theorem get_literals (m : JsonMap) (k : Text) :
    (literals m).get k = (m.get k).map (Json.map GoNumber.literal) :=
  OrderedMap.get_mapValues _ _ _

/-- A number is replaced by something that is neither a string nor a truth value. -/
def KeepsKinds {ν μ : Type} (f : ν → Json μ) : Prop :=
  ∀ n, (f n).norm = f n ∧ (f n).asString = none ∧ (f n).asBool = none

theorem keepsKinds_literal : KeepsKinds fun n : GoNumber => Json.number n.literal :=
  fun _ => ⟨rfl, rfl, rfl⟩

section
variable {ν μ : Type} {f : ν → Json μ}

theorem asBool_subst (hf : KeepsKinds f) (j : Json ν) : (j.subst f).asBool = j.asBool := by
  cases j with
  | number n => exact (hf n).2.2
  | _ => rfl

end

/-- The revision, and what is set before it. -/
theorem get_withFields_before (m : JsonMap) (docType : DocType) (key revision : GoString)
    (value : Option Value) (k : Text) :
    (withFields m docType key revision value).get k =
      if k = revName ∧ revision ≠ [] then some (.string (toText revision))
      else (setValueFields ((setDeleted m docType).set idField (.string (toText key)))
        value).get k := by
  rw [withFields, setRevision]
  by_cases hrev : revision = []
  · rw [if_pos hrev, if_neg fun h => h.2 hrev]
  · rw [if_neg hrev]
    by_cases hk : k = revName
    · rw [if_pos ⟨hk, hrev⟩, hk]
      exact OrderedMap.get_set_self _ _ _
    · rw [if_neg fun h => hk h.1]
      exact OrderedMap.get_set_ne hk _ _

/-- What `newJSONMap` assigns, and in the end the members of the value. -/
theorem get_withFields {docType : DocType} (hdoc : docType ≠ .typeDelete)
    (key revision : GoString) (v : Value) (k : Text) :
    (withFields m docType key revision (some v)).get k =
      if k = revName ∧ revision ≠ [] then some (.string (toText revision))
      else if k = expiryField then some (.number (.int64 (getUnixExpiry v.expiryTime)))
      else if k = txnIDField then some (.string (toText v.txID))
      else if k = idName then some (.string (toText key))
      else m.get k := by
  have hset : (setValueFields ((setDeleted m docType).set idField (.string (toText key)))
      (some v)).get k =
      if k = expiryField then some (.number (.int64 (getUnixExpiry v.expiryTime)))
      else if k = txnIDField then some (.string (toText v.txID))
      else if k = idName then some (.string (toText key))
      else m.get k := by
    rw [setDeleted, if_neg hdoc, setValueFields, OrderedMap.get_set, OrderedMap.get_set,
      OrderedMap.get_set]
    rfl
  rw [get_withFields_before, hset]

theorem isMap_withFields (h : Json.IsMap m) (docType : DocType)
    (key revision : GoString) (value : Option Value) :
    Json.IsMap (withFields m docType key revision value) := by
  have hdel : Json.IsMap ((setDeleted m docType).set idField (.string (toText key))) := by
    rw [setDeleted]
    split
    · exact (h.set rfl).set rfl
    · exact h.set rfl
  have hval : Json.IsMap (setValueFields
      ((setDeleted m docType).set idField (.string (toText key))) value) := by
    cases value with
    | none => exact hdel
    | some v => exact (hdel.set rfl).set rfl
  rw [withFields, setRevision]
  split
  · exact hval
  · exact hval.set rfl

/-! ## Expiry times -/

theorem int64_ofInt {n : Int} (hlow : -2 ^ 63 ≤ n) (hhigh : n < 2 ^ 63) :
    int64 (Number.ofInt n) = some n := by
  have hval : (if (Number.ofInt n).neg then -((Number.ofInt n).int : Int)
      else ((Number.ofInt n).int : Int)) = n := by
    rw [Number.ofInt]
    by_cases h : n < 0
    · simp only [h, decide_true, if_true]
      omega
    · simp only [h, decide_false, Bool.false_eq_true, if_false]
      omega
  rw [int64, hval]
  exact if_pos ⟨rfl, rfl, hlow, hhigh⟩

/-- What is cut off from an instant. -/
theorem exists_eq_tdiv (n : Int) : ∃ r, n = n.tdiv 1000000 * 1000000 + r ∧
    (0 ≤ n → 0 ≤ r ∧ r < 1000000) ∧ (n < 0 → -1000000 < r ∧ r ≤ 0) := by
  refine ⟨n.tmod 1000000, ?_, fun h => ?_, fun h => ?_⟩
  · rw [Int.mul_comm]
    exact (Int.mul_tdiv_add_tmod n 1000000).symm
  · exact ⟨Int.tmod_nonneg 1000000 h, Int.tmod_lt_of_pos n (by decide)⟩
  · have hneg := Int.neg_tmod (-n) 1000000
    rw [Int.neg_neg] at hneg
    have hlow := Int.tmod_nonneg 1000000 (show 0 ≤ -n by omega)
    have hhigh := Int.tmod_lt_of_pos (-n) (show (0 : Int) < 1000000 by decide)
    omega

theorem unixNano_bounds (t : Time) : -2 ^ 63 ≤ t.unixNano ∧ t.unixNano < 2 ^ 63 := by
  rw [Time.unixNano, toInt64, Int.bmod_def]
  split
  · omega
  · omega

/-- The milliseconds of an expiry fit 64 bits as nanoseconds. -/
theorem getUnixExpiry_bounds (expiry : Time) :
    -2 ^ 63 ≤ getUnixExpiry expiry * 1000000 ∧ getUnixExpiry expiry * 1000000 < 2 ^ 63 := by
  obtain ⟨hlow, hhigh⟩ := unixNano_bounds expiry
  rw [getUnixExpiry]
  split
  · decide
  · obtain ⟨r, hr, hpos, hneg⟩ := exists_eq_tdiv expiry.unixNano
    omega

theorem int64_getUnixExpiry (expiry : Time) :
    int64 (Number.ofInt (getUnixExpiry expiry)) = some (getUnixExpiry expiry) := by
  obtain ⟨hlow, hhigh⟩ := getUnixExpiry_bounds expiry
  exact int64_ofInt (by omega) (by omega)

/-! ## Reading a document -/

/-- The members that the store finds in its documents. -/
structure WellFormedMembers (members : OrderedMap Text (Json Number)) : Prop where
  isMap : Json.IsMap members
  txnID : ∃ s, members.get txnIDField = some (.string s)
  expiry : ∃ n, members.get expiryField = some (.number (Number.ofInt n)) ∧
    int64 (Number.ofInt n) = some n

structure WellFormedDoc (srv : Server) (doc : Document) : Prop
    extends WellFormedMembers doc.members where
  isRevision : srv.isRevision doc.rev = true

def WellFormed (srv : Server) (db : Database) : Prop :=
  ∀ id doc, db.lookup id = some doc → WellFormedDoc srv doc

variable {srv : Server} {db : Database}

/-- The update deletes a document, or writes one that is well formed. -/
def Sound (u : Update) : Prop := u.deleted = true ∨ WellFormedMembers u.members

theorem wellFormed_update (hdb : WellFormed srv db)
    (hu : Sound u) : WellFormed srv (srv.update db u) := by
  intro id doc hl
  rw [Server.lookup_update] at hl
  split_ifs at hl with hid hdel
  · obtain rfl := Option.some.inj hl
    exact ⟨hu.resolve_left hdel, srv.isRevision_nextRevision _⟩
  · exact hdb id doc hl

theorem wellFormed_batch {db db' : Database} (hdb : WellFormed srv db)
    {docs : List CouchDoc} (hdocs : ∀ doc ∈ docs, ∀ u, srv.readUpdate doc = .ok u → Sound u)
    (h : srv.batchUpdateDocuments db docs = .ok db') : WellFormed srv db' := by
  have hfold : ∀ (us : List Update) (db : Database), WellFormed srv db → (∀ u ∈ us, Sound u) →
      WellFormed srv (us.foldl srv.update db) := by
    intro us
    induction us with
    | nil => exact fun db hdb _ => hdb
    | cons u us ih =>
      intro db hdb hus
      exact ih _ (wellFormed_update hdb (hus u List.mem_cons_self))
        fun u' hu' => hus u' (List.mem_cons_of_mem _ hu')
  rw [Server.batchUpdateDocuments] at h
  cases hus : collect srv.readUpdate docs with
  | error e =>
    rw [hus] at h
    cases h
  | ok us =>
    rw [hus] at h
    obtain rfl := Except.ok.inj h
    refine hfold us db hdb fun u hu => ?_
    obtain ⟨doc, hdoc, hread⟩ := (mem_of_collect hus u).mp hu
    exact hdocs doc hdoc u hread

theorem isMap_nil {ν : Type} : Json.IsMap ([] : OrderedMap Text (Json ν)) :=
  ⟨List.Pairwise.nil, fun _ hp => absurd hp List.not_mem_nil⟩

theorem isMap_jsonUnmarshal {data : Bytes} {err : Option String}
    (h : jsonUnmarshal data = (some m, err)) : Json.IsMap m := by
  rw [jsonUnmarshal.eq_def] at h
  split at h
  · cases h
    exact isMap_nil
  · cases h
  · obtain ⟨hm, -⟩ := Prod.mk.inj h
    obtain rfl := Option.some.inj hm
    exact Json.isMap_toMap _
  · cases h
    exact isMap_nil

/-- Deletions apart, the value is there, and its members are a map. -/
theorem jsonMapFromValue_inv {value : Option Value} {docType : DocType}
    (h : jsonMapFromValue value = .ok (some m, docType)) :
    Json.IsMap m ∧ (docType ≠ .typeDelete → ∃ v, value = some v) := by
  rw [jsonMapFromValue] at h
  cases hv : value.bind Value.value with
  | none =>
    rw [hv] at h
    cases h
    exact ⟨isMap_nil, fun hne => absurd rfl hne⟩
  | some data =>
    obtain ⟨v, hvalue, -⟩ := Option.bind_eq_some_iff.mp hv
    refine ⟨?_, fun _ => ⟨v, hvalue⟩⟩
    rw [hv] at h
    dsimp only at h
    split at h
    · next m' hjson =>
      split at h
      · cases h
      · cases h
        exact isMap_jsonUnmarshal hjson
    · next m' err _ hjson =>
      cases h
      exact isMap_jsonUnmarshal hjson

theorem get_deletedName_withFields (m : JsonMap) (key revision : GoString) (value : Option Value) :
    (withFields m .typeDelete key revision value).get deletedName = some (.bool true) := by
  have hval : (setValueFields ((setDeleted m .typeDelete).set idField (.string (toText key)))
      value).get deletedName = some (.bool true) := by
    have hdel : ((setDeleted m .typeDelete).set idField (.string (toText key))).get deletedName =
        some (.bool true) := by
      rw [OrderedMap.get_set_ne (by decide), setDeleted, if_pos rfl]
      exact OrderedMap.get_set_self _ _ _
    cases value with
    | none => exact hdel
    | some v =>
      rw [setValueFields, OrderedMap.get_set_ne (by decide), OrderedMap.get_set_ne (by decide),
        hdel]
  rw [get_withFields_before, if_neg fun h => absurd h.1 (by decide), hval]

theorem newJSONMap_inv {value : Option Value} {m : Option JsonMap}
    {docType : DocType} (h : newJSONMap key revision value = .ok (m, docType)) :
    (m = none ∧ docType = .typeDelete) ∨ ∃ m', jsonMapFromValue value = .ok (some m', docType) ∧
      m = some (withFields m' docType key revision value) := by
  rw [newJSONMap] at h
  cases hjson : jsonMapFromValue value with
  | error e =>
    rw [hjson] at h
    cases h
  | ok p =>
    obtain ⟨m', docType'⟩ := p
    rw [hjson] at h
    dsimp only at h
    split at h
    next =>
      cases h
      exact .inl ⟨rfl, rfl⟩
    next =>
      cases m' with
      | none => cases h
      | some m' =>
        cases h
        exact .inr ⟨m', rfl, rfl⟩

def couchDocOf (kv : KeyValue) (revision : GoString) : Except Err (Option CouchDoc) :=
  match newJSONMap kv.key revision kv.value with
  | .error e => .error e
  | .ok (none, .typeDelete) => .ok none
  | .ok (m, docType) =>
    .ok (some ⟨toBytes m, if docType = .typeAttachment then
      (kv.value.bind Value.value).map fun value => [asAttachment value] else none⟩)

theorem createCouchDoc_ok {doc : Option CouchDoc} (h : createCouchDoc srv db kv = .ok doc) :
    ∃ revision, revisionFor srv db kv = .ok revision ∧ couchDocOf kv revision = .ok doc := by
  rw [createCouchDoc] at h
  cases hrev : revisionFor srv db kv with
  | error e =>
    rw [hrev] at h
    cases h
  | ok revision =>
    rw [hrev] at h
    exact ⟨revision, rfl, h⟩

/-- The map that a document is written from. -/
theorem couchDocOf_inv {doc : CouchDoc} (h : couchDocOf kv revision = .ok (some doc)) : ∃ m docType,
      jsonMapFromValue kv.value = .ok (some m, docType) ∧
      doc = ⟨Json.render (.object (literals (withFields m docType kv.key revision kv.value))),
        if docType = .typeAttachment then
          (kv.value.bind Value.value).map fun value => [asAttachment value] else none⟩ := by
  rw [couchDocOf] at h
  split at h
  next => cases h
  next => cases h
  next m docType hnot hmap =>
    cases h
    rcases newJSONMap_inv hmap with ⟨hnone, htype⟩ | ⟨m', hjson, hm'⟩
    · exact absurd htype (hnot hnone)
    · exact ⟨m', docType, hjson, by rw [hm', toBytes_some]⟩

/-- What the store sends is sound. -/
theorem sound_couchDocOf {doc : CouchDoc} (h : couchDocOf kv revision = .ok (some doc))
    (hu : srv.readUpdate doc = .ok u) : Sound u := by
  obtain ⟨m, docType, hjson, rfl⟩ := couchDocOf_inv h
  obtain ⟨hm, hvalue⟩ := jsonMapFromValue_inv hjson
  have hmap := isMap_literals (isMap_withFields hm docType kv.key revision kv.value)
  obtain ⟨hmembers, hdel, -⟩ := Server.readUpdate_inv hu
  rw [hmap.toMap_eq] at hmembers hdel
  by_cases htype : docType = .typeDelete
  · refine .inl (hdel.mpr ?_)
    rw [get_literals, htype, get_deletedName_withFields]
    rfl
  · obtain ⟨v, hv⟩ := hvalue htype
    rw [hv] at hmembers hmap
    refine .inr ?_
    rw [hmembers]
    refine ⟨hmap.restrict, ⟨toText v.txID, ?_⟩, getUnixExpiry v.expiryTime, ?_,
      int64_getUnixExpiry v.expiryTime⟩
    · rw [OrderedMap.get_restrict, if_pos (by decide), get_literals, get_withFields htype,
        if_neg (fun h => absurd h.1 (by decide)), if_neg (by decide), if_pos rfl]
      rfl
    · rw [OrderedMap.get_restrict, if_pos (by decide), get_literals, get_withFields htype,
        if_neg (fun h => absurd h.1 (by decide)), if_pos rfl]
      rfl

theorem expiryData_update {id : Text}
    (h : srv.readUpdate (expiryData id doc) = .ok u) : u.deleted = true ∧ u.id = id := by
  obtain ⟨-, hdel, hid, -⟩ := Server.readUpdate_inv h
  refine ⟨hdel.mpr ?_, ?_⟩
  · have hget : (Json.toMap [(idField, Json.string id), (revField, .string doc.rev),
        (deletedField, .bool true)]).get deletedName = some (Json.bool true : Json Number) :=
      OrderedMap.get_set_self _ _ _
    rw [hget]
    rfl
  · have hget : (Json.toMap [(idField, Json.string id), (revField, .string doc.rev),
        (deletedField, .bool true)]).get idName = some (Json.string id : Json Number) := rfl
    rw [hget] at hid
    exact (Option.some.inj hid).symm

theorem sound_expiryData {id : Text} (hu : srv.readUpdate (expiryData id doc) = .ok u) : Sound u :=
  .inl (expiryData_update hu).1

end FabricPeerExt.Offledger.CouchDBStore
