/-
FabricPeerExt.Lib.Codec — encodings as values: a writer, a reader, and the law that ties them.

A `Marshaler` reads back exactly the string it wrote; a `SelfDelimiting` encoding can be followed
by anything. The laws are fields.
-/
import FabricPeerExt.Lib.KeyValue

namespace FabricPeerExt.Lib

/-! ## §1 Marshalers -/

/-- A marshaller for values of type `α`: writing may fail, and reading what was
written gives the value back. -/
structure Marshaler (α : Type) where
  marshal : α → Except String Bytes
  unmarshal : Bytes → Except String α
  unmarshal_marshal : ∀ {a : α} {bs : Bytes}, marshal a = .ok bs → unmarshal bs = .ok a

/-! ## §2 Self-delimiting encodings -/

/-- An encoding whose reader finds the end of the value by itself. -/
structure SelfDelimiting (α : Type) where
  encode : α → Bytes
  decode : Bytes → Except String (α × Nat)
  decode_encode : ∀ (a : α) (rest : Bytes),
    decode (encode a ++ rest) = .ok (a, (encode a).length)

namespace SelfDelimiting

variable {α β : Type} (c : SelfDelimiting α)

/-- No encoding is a prefix of another one, so a sequence of encodings can be
read in one way only. -/
theorem prefix_free {a b : α} {r r' : Bytes} (h : c.encode a ++ r = c.encode b ++ r') :
    a = b ∧ r = r' := by
  have ha := c.decode_encode a r
  rw [h, c.decode_encode b r'] at ha
  obtain rfl : b = a := (Prod.mk.inj (Except.ok.inj ha)).1
  exact ⟨rfl, List.append_cancel_left h⟩

theorem encode_injective {a b : α} (h : c.encode a = c.encode b) : a = b := by
  have hnil : c.encode a ++ [] = c.encode b ++ [] := by rw [h]
  exact (c.prefix_free hnil).1

theorem eq_of_encode_prefix {a b : α} (h : c.encode a <+: c.encode b) : a = b := by
  obtain ⟨r, hr⟩ := h
  have hnil : c.encode a ++ r = c.encode b ++ [] := by rw [hr, List.append_nil]
  exact (c.prefix_free hnil).1

def decodeN : Nat → Bytes → Except String (List α × Bytes)
  | 0, bs => .ok ([], bs)
  | n + 1, bs =>
      match c.decode bs with
      | .error e => .error e
      | .ok (a, used) =>
          match decodeN n (bs.drop used) with
          | .error e => .error e
          | .ok (as, rest) => .ok (a :: as, rest)

theorem decodeN_flatMap (as : List α) (rest : Bytes) :
    c.decodeN as.length (as.flatMap c.encode ++ rest) = .ok (as, rest) := by
  induction as with
  | nil => rfl
  | cons a as ih =>
    rw [List.flatMap_cons, List.append_assoc, List.length_cons, decodeN, c.decode_encode]
    simp only [List.drop_left, ih]

def toMarshaler : Marshaler α where
  marshal a := .ok (c.encode a)
  unmarshal bs := match c.decode bs with
    | .ok (a, _) => .ok a
    | .error e => .error e
  unmarshal_marshal := by
    intro a bs h
    have hd := c.decode_encode a []
    rw [List.append_nil] at hd
    rw [← Except.ok.inj h, hd]

end SelfDelimiting

/-! ## §3 Order-preserving encodings -/

/-- A self-delimiting encoding of 64-bit numbers whose byte order is the
numeric order. -/
structure OrderPreserving extends SelfDelimiting UInt64 where
  encode_lt : ∀ {m n : UInt64}, m < n → encode m < encode n

namespace OrderPreserving

variable (c : OrderPreserving)

/-- Smaller numbers come first, whatever follows the two encodings. -/
theorem append_lt {m n : UInt64} (h : m < n) (r r' : Bytes) :
    c.encode m ++ r < c.encode n ++ r' :=
  append_lt_append_of_lt (c.encode_lt h)
    (fun hp => absurd (c.eq_of_encode_prefix hp) (UInt64.ne_of_lt h)) r r'

/-- The order of two encodings with suffixes: by number, then by suffix. -/
theorem append_lt_iff {m n : UInt64} {r r' : Bytes} :
    c.encode m ++ r < c.encode n ++ r' ↔ m < n ∨ m = n ∧ r < r' := by
  by_cases heq : m = n
  · subst heq
    rw [append_lt_append_left]
    exact ⟨fun h => Or.inr ⟨rfl, h⟩, fun h => h.elim (absurd · (UInt64.lt_irrefl m)) (·.2)⟩
  · refine ⟨fun h => Or.inl ?_, fun h => c.append_lt (h.resolve_right (fun h' => heq h'.1)) r r'⟩
    rcases UInt64.lt_or_lt_of_ne heq with hlt | hgt
    · exact hlt
    · exact absurd h (List.lt_asymm (c.append_lt hgt r' r))

end OrderPreserving

/-! ## §4 Varints -/

/-- A variable-length encoding of 64-bit numbers that writes a number below 128
as the single byte it is (protobuf's base-128 varint is one). -/
structure Varint extends SelfDelimiting UInt64 where
  encode_small : ∀ n : Nat, n < 128 → encode (UInt64.ofNat n) = [UInt8.ofNat n]

end FabricPeerExt.Lib
