/-
FabricPeerExt.LedgerConfig.ValueJson — a configuration value as the JSON document that
`json.Marshal` writes and `json.Unmarshal` reads. What is not valid UTF-8 becomes U+FFFD, here
always the character.
-/
import FabricPeerExt.LedgerConfig.Config
import FabricPeerExt.Lib.JsonTheorems

namespace FabricPeerExt.LedgerConfig

open Lib
open PvtData (GoString)

/-! ## Writing -/

def txIDField : Text := ['T', 'x', 'I', 'D']
def formatField : Text := ['F', 'o', 'r', 'm', 'a', 't']
def configField : Text := ['C', 'o', 'n', 'f', 'i', 'g']
def tagsField : Text := ['T', 'a', 'g', 's']

def tagsToJson : Option (List GoString) → Json Number
  | none => .null
  | some tags => .array (tags.map fun tag => .string (toText tag))

def Value.toJson (v : Value) : Json Number :=
  .object [(txIDField, .string (toText v.txID)), (formatField, .string (toText v.format)),
    (configField, .string (toText v.config)), (tagsField, tagsToJson v.tags)]

def marshalValue (v : Value) : Bytes := Json.render v.toJson

/-! ## Reading -/

/-- Letters without their case, as `encoding/json` compares names of fields: the long s and
the Kelvin sign are letters too. -/
def foldChar (c : Char) : Char :=
  if c = Char.ofNat 0x17F then 's' else if c = Char.ofNat 0x212A then 'k' else c.toLower

def isField (field name : Text) : Bool := name.map foldChar = field.map foldChar

def readString (old : GoString) : Json Number → Option GoString
  | .string s => some (ofText s)
  | .null => some old
  | _ => none

def readStrings : List (Json Number) → Option (List GoString)
  | [] => some []
  | item :: items =>
    match readString [] item, readStrings items with
    | some s, some rest => some (s :: rest)
    | _, _ => none

def readTags : Json Number → Option (Option (List GoString))
  | .null => some none
  | .array items => (readStrings items).map some
  | _ => none

/-- One member of the document. A member that is no field of the value is ignored. -/
def Value.setField (v : Value) (name : Text) (j : Json Number) : Option Value :=
  if isField txIDField name then (readString v.txID j).map fun s => { v with txID := s }
  else if isField formatField name then (readString v.format j).map fun s => { v with format := s }
  else if isField configField name then (readString v.config j).map fun s => { v with config := s }
  else if isField tagsField name then (readTags j).map fun tags => { v with tags := tags }
  else some v

def Value.setFields (v : Value) : List (Text × Json Number) → Option Value
  | [] => some v
  | (name, j) :: members =>
    match v.setField name j with
    | none => none
    | some v' => v'.setFields members

def emptyValue : Value := ⟨[], [], [], none⟩

def unmarshalValue (b : Bytes) : Option Value :=
  match Json.parse b with
  | some (.object members) => emptyValue.setFields members
  | some .null => some emptyValue
  | _ => none

/-! ## The round trip -/

/-- What is left of a string: the characters, and U+FFFD for what is not valid. -/
def coerceString (s : GoString) : GoString := ofText (toText s)

def Value.coerce (v : Value) : Value :=
  ⟨coerceString v.txID, coerceString v.format, coerceString v.config,
    v.tags.map fun tags => tags.map coerceString⟩

structure Value.Valid (v : Value) : Prop where
  txID : validString v.txID = true
  format : validString v.format = true
  config : validString v.config = true
  tags : ∀ tags, v.tags = some tags → ∀ tag ∈ tags, validString tag = true

theorem readStrings_map (tags : List GoString) :
    readStrings (tags.map fun tag => .string (toText tag)) = some (tags.map coerceString) := by
  induction tags with
  | nil => rfl
  | cons tag tags ih =>
    rw [List.map_cons, readStrings, ih]
    rfl

theorem readTags_tagsToJson (tags : Option (List GoString)) :
    readTags (tagsToJson tags) = some (tags.map fun tags => tags.map coerceString) := by
  cases tags with
  | none => rfl
  | some tags =>
    rw [tagsToJson, readTags, readStrings_map]
    rfl

/-- What is read back. -/
theorem unmarshalValue_marshalValue (v : Value) :
    unmarshalValue (marshalValue v) = some v.coerce := by
  have htxID : ∀ (w : Value) (s : Text),
      w.setField txIDField (.string s) = some { w with txID := ofText s } := fun _ _ => rfl
  have hformat : ∀ (w : Value) (s : Text),
      w.setField formatField (.string s) = some { w with format := ofText s } := fun _ _ => rfl
  have hconfig : ∀ (w : Value) (s : Text),
      w.setField configField (.string s) = some { w with config := ofText s } := fun _ _ => rfl
  have htags : ∀ (w : Value) (j : Json Number),
      w.setField tagsField j = (readTags j).map fun tags => { w with tags := tags } :=
    fun _ _ => rfl
  rw [unmarshalValue, marshalValue, Json.parse_render, Value.toJson]
  simp only [Value.setFields, htxID, hformat, hconfig, htags, readTags_tagsToJson, Option.map_some]
  rfl

theorem coerceString_eq_iff {s : GoString} : coerceString s = s ↔ validString s = true :=
  ofText_toText_iff

/-- A value is read back as it was written exactly if it is valid. -/
theorem Value.coerce_eq_iff {v : Value} : v.coerce = v ↔ v.Valid := by
  have htags : ∀ tags : List GoString,
      tags.map coerceString = tags ↔ ∀ tag ∈ tags, validString tag = true := by
    intro tags
    induction tags with
    | nil => simp
    | cons tag tags ih =>
      rw [List.map_cons, List.cons.injEq, List.forall_mem_cons, ih, coerceString_eq_iff]
  obtain ⟨txID, format, config, tags⟩ := v
  rw [Value.coerce, Value.mk.injEq]
  simp only [coerceString_eq_iff]
  constructor
  · rintro ⟨h1, h2, h3, h4⟩
    refine ⟨h1, h2, h3, fun ts hts => ?_⟩
    obtain rfl : tags = some ts := hts
    exact (htags ts).mp (Option.some.inj h4)
  · intro h
    refine ⟨h.txID, h.format, h.config, ?_⟩
    cases tags with
    | none => rfl
    | some ts => exact congrArg some ((htags ts).mpr (h.tags ts rfl))

end FabricPeerExt.LedgerConfig
