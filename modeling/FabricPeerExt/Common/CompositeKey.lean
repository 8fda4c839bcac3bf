/-
FabricPeerExt.Common.CompositeKey — `pkg/common/compositekey`: keys made of attributes, each ended
by a NUL byte.
-/
import FabricPeerExt.PvtData.Types

namespace FabricPeerExt.Common

open Lib
open PvtData (GoString)

/-- `string(maxUnicodeRuneValue)`, the encoding of U+10FFFF. -/
def maxUnicodeRune : GoString := [0xF4, 0x8F, 0xBF, 0xBF]

/-- `Create`. -/
def create (objectType : GoString) (attributes : List GoString) : GoString :=
  attributes.foldl (fun ck att => ck ++ (att ++ [0])) ([0] ++ objectType ++ [0])

/-- The loop of `Split`, with the bytes since `componentIndex`. What stands after the last
NUL byte is dropped. -/
def splitLoop : GoString → GoString → List GoString
  | _, [] => []
  | component, b :: rest =>
    if b = 0 then component :: splitLoop [] rest else splitLoop (component ++ [b]) rest

/-- `Split`; nothing if it panics because the key has no component. -/
def split (compositeKey : GoString) : Option (GoString × List GoString) :=
  match splitLoop [] (compositeKey.drop 1) with
  | [] => none
  | objectType :: attributes => some (objectType, attributes)

/-- `CreateRangeKeysForPartialCompositeKey`. -/
def createRangeKeysForPartialCompositeKey (objectType : GoString) (attributes : List GoString) :
    GoString × GoString :=
  (create objectType attributes, create objectType attributes ++ maxUnicodeRune)

/-- A composite key is a NUL byte and the parts, each with a NUL byte after it. -/
theorem create_eq (objectType : GoString) (attributes : List GoString) :
    create objectType attributes =
      0 :: (objectType :: attributes).flatMap fun att => att ++ [0] := by
  have hfold : ∀ (atts : List GoString) (ck : GoString),
      atts.foldl (fun ck att => ck ++ (att ++ [0])) ck =
        ck ++ atts.flatMap fun att => att ++ [0] := by
    intro atts
    induction atts with
    | nil => simp
    | cons att atts ih => simp [ih]
  rw [create, hfold]
  simp

theorem splitLoop_append {att : GoString} (h : 0 ∉ att) (component rest : GoString) :
    splitLoop component (att ++ 0 :: rest) = (component ++ att) :: splitLoop [] rest := by
  induction att generalizing component with
  | nil => simp [splitLoop]
  | cons b att ih =>
    obtain ⟨hb, hatt⟩ := not_or.mp fun hor => h (List.mem_cons.mpr hor)
    rw [List.cons_append, splitLoop, if_neg (Ne.symm hb), ih hatt]
    simp

theorem splitLoop_flatMap {atts : List GoString} (h : ∀ att ∈ atts, 0 ∉ att) :
    splitLoop [] (atts.flatMap fun att => att ++ [0]) = atts := by
  induction atts with
  | nil => rfl
  | cons att atts ih =>
    obtain ⟨hatt, hatts⟩ := List.forall_mem_cons.mp h
    have hcons : (att :: atts).flatMap (fun att => att ++ [0]) =
        att ++ 0 :: atts.flatMap fun att => att ++ [0] := by simp
    rw [hcons, splitLoop_append hatt, ih hatts, List.nil_append]

variable {objectType : GoString} {attributes : List GoString}

/-- Parts without NUL bytes are read back. -/
theorem split_create (ho : 0 ∉ objectType) (ha : ∀ att ∈ attributes, 0 ∉ att) :
    split (create objectType attributes) = some (objectType, attributes) := by
  rw [split, create_eq, List.drop_one, List.tail_cons,
    splitLoop_flatMap (List.forall_mem_cons.mpr ⟨ho, ha⟩)]

theorem create_injective {attributes' : List GoString}
    (ho : 0 ∉ objectType) (ha : ∀ att ∈ attributes, 0 ∉ att) (ha' : ∀ att ∈ attributes', 0 ∉ att)
    (h : create objectType attributes = create objectType attributes') :
    attributes = attributes' := by
  have hsplit := split_create ho ha
  rw [h, split_create ho ha'] at hsplit
  exact (Prod.mk.inj (Option.some.inj hsplit)).2.symm

/-- What a scan over a partial composite key finds. -/
theorem between_rangeKeys_iff {k : GoString} :
    (createRangeKeysForPartialCompositeKey objectType attributes).1 ≤ k ∧
      k < (createRangeKeysForPartialCompositeKey objectType attributes).2 ↔
      ∃ rest, k = create objectType attributes ++ rest ∧ rest < maxUnicodeRune := by
  constructor
  · rintro ⟨hle, hlt⟩
    obtain ⟨rest, rfl⟩ : create objectType attributes <+: k := by
      refine prefix_of_between (a := []) ?_ hlt
      rw [List.append_nil]
      exact hle
    exact ⟨rest, rfl, (append_lt_append_left _).mp hlt⟩
  · rintro ⟨rest, rfl, hlt⟩
    exact ⟨List.le_append_left, (append_lt_append_left _).mpr hlt⟩

end FabricPeerExt.Common
