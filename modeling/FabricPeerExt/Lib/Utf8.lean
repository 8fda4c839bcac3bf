/-
FabricPeerExt.Lib.Utf8 — byte strings as texts. A byte that does not start the encoding of a
character becomes U+FFFD.
-/
import FabricPeerExt.Lib.ByteOrder

namespace FabricPeerExt.Lib

abbrev Text := List Char

def ofText (t : Text) : Bytes := t.flatMap String.utf8EncodeChar

@[simp] theorem ofText_cons (c : Char) (t : Text) :
    ofText (c :: t) = String.utf8EncodeChar c ++ ofText t := rfl

/-- U+FFFD, which stands for what is not valid. -/
def replacementChar : Char := Char.ofNat 0xFFFD

/-- The character at the start of a byte string, if there is one, and the bytes after it. -/
def decodeRune (s : Bytes) : Option (Char × Bytes) :=
  (s.toByteArray.utf8DecodeChar? 0).map fun c => (c, s.drop c.utf8Size)

theorem decodeRune_append (c : Char) (r : Bytes) :
    decodeRune (String.utf8EncodeChar c ++ r) = some (c, r) := by
  have hc : ((String.utf8EncodeChar c ++ r).toByteArray.utf8DecodeChar? 0) = some c := by
    rw [List.toByteArray_append, ← List.utf8Encode_singleton]
    exact ByteArray.utf8DecodeChar?_append_eq_some List.utf8DecodeChar?_utf8Encode_singleton _
  rw [decodeRune, hc, Option.map_some, ← String.length_utf8EncodeChar, List.drop_left]

theorem eq_of_decodeRune {s r : Bytes} {c : Char} (h : decodeRune s = some (c, r)) :
    s = String.utf8EncodeChar c ++ r := by
  obtain ⟨c', hc, heq⟩ := Option.map_eq_some_iff.mp h
  obtain ⟨rfl, rfl⟩ := Prod.mk.inj heq
  have henc := String.toByteArray_utf8EncodeChar_of_utf8DecodeChar?_eq_some hc
  have hdata := congrArg (fun b => b.data.toList) henc
  simp only [List.data_toByteArray, ByteArray.data_extract, Array.toList_extract,
    List.extract_eq_take_drop, List.drop_zero, Nat.sub_zero] at hdata
  rw [hdata, List.take_append_drop]

def toTextFrom : Nat → Bytes → Text
  | _, [] => []
  | 0, _ => []
  | fuel + 1, b :: s =>
    match decodeRune (b :: s) with
    | some (c, r) => c :: toTextFrom fuel r
    | none => replacementChar :: toTextFrom fuel s

def toText (s : Bytes) : Text := toTextFrom s.length s

/-- A byte string as an argument of a message. -/
def asString (s : Bytes) : String := String.ofList (toText s)

def validFrom : Nat → Bytes → Bool
  | _, [] => true
  | 0, _ => false
  | fuel + 1, b :: s =>
    match decodeRune (b :: s) with
    | some (_, r) => validFrom fuel r
    | none => false

def validString (s : Bytes) : Bool := validFrom s.length s

/-- The encoding of a text that is not empty, as a reader sees it. -/
theorem exists_ofText_cons (c : Char) (t : Text) : ∃ b s, ofText (c :: t) = b :: s ∧
    decodeRune (b :: s) = some (c, ofText t) ∧ (ofText t).length ≤ s.length := by
  have hne : String.utf8EncodeChar c ≠ [] := by
    intro h
    have hlen := String.length_utf8EncodeChar c
    rw [h, List.length_nil] at hlen
    exact absurd hlen (Nat.ne_of_lt c.utf8Size_pos)
  obtain ⟨b, s, hs⟩ := List.exists_cons_of_ne_nil hne
  refine ⟨b, s ++ ofText t, by rw [ofText_cons, hs, List.cons_append], ?_, ?_⟩
  · rw [← List.cons_append, ← hs, decodeRune_append]
  · rw [List.length_append]
    exact Nat.le_add_left _ _

theorem toTextFrom_ofText : ∀ {t : Text} {fuel : Nat}, (ofText t).length ≤ fuel →
    toTextFrom fuel (ofText t) = t
  | [], fuel, _ => by cases fuel <;> rfl
  | c :: t, fuel, hfuel => by
    obtain ⟨b, s, hs, hdec, hlen⟩ := exists_ofText_cons c t
    rw [hs, List.length_cons] at hfuel
    obtain ⟨fuel, rfl⟩ := Nat.exists_eq_succ_of_ne_zero (show fuel ≠ 0 by omega)
    rw [hs, toTextFrom, hdec]
    exact congrArg (c :: ·) (toTextFrom_ofText (by omega))

/-- A text is read back from its encoding. -/
theorem toText_ofText (t : Text) : toText (ofText t) = t := toTextFrom_ofText (Nat.le_refl _)

theorem validFrom_ofText : ∀ {t : Text} {fuel : Nat}, (ofText t).length ≤ fuel →
    validFrom fuel (ofText t) = true
  | [], fuel, _ => by cases fuel <;> rfl
  | c :: t, fuel, hfuel => by
    obtain ⟨b, s, hs, hdec, hlen⟩ := exists_ofText_cons c t
    rw [hs, List.length_cons] at hfuel
    obtain ⟨fuel, rfl⟩ := Nat.exists_eq_succ_of_ne_zero (show fuel ≠ 0 by omega)
    rw [hs, validFrom, hdec]
    exact validFrom_ofText (by omega)

theorem ofText_toTextFrom : ∀ {fuel : Nat} {s : Bytes}, validFrom fuel s = true →
    ofText (toTextFrom fuel s) = s
  | fuel, [], _ => by cases fuel <;> rfl
  | 0, b :: s, h => by cases h
  | fuel + 1, b :: s, h => by
    rw [validFrom] at h
    rw [toTextFrom]
    cases hdec : decodeRune (b :: s) with
    | none => rw [hdec] at h; cases h
    | some p =>
      obtain ⟨c, r⟩ := p
      rw [hdec] at h
      rw [eq_of_decodeRune hdec]
      exact congrArg (String.utf8EncodeChar c ++ ·) (ofText_toTextFrom h)

/-- A byte string survives if and only if it is valid UTF-8. -/
theorem ofText_toText_iff {s : Bytes} : ofText (toText s) = s ↔ validString s = true := by
  refine ⟨fun h => ?_, ofText_toTextFrom⟩
  rw [← h]
  exact validFrom_ofText (Nat.le_refl _)

end FabricPeerExt.Lib
