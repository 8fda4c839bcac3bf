/-
FabricPeerExt.Lib.Base64 — the standard base64 encoding with padding. The reader skips carriage
returns and newlines, as Go's `encoding/base64` does.
-/
import FabricPeerExt.Lib.ByteOrder

namespace FabricPeerExt.Lib

def base64Char (n : Nat) : UInt8 :=
  UInt8.ofNat <|
    if n < 26 then 65 + n
    else if n < 52 then 97 + (n - 26)
    else if n < 62 then 48 + (n - 52)
    else if n = 62 then 43
    else 47

def base64Value (c : UInt8) : Option Nat :=
  let n := c.toNat
  if 65 ≤ n ∧ n ≤ 90 then some (n - 65)
  else if 97 ≤ n ∧ n ≤ 122 then some (n - 97 + 26)
  else if 48 ≤ n ∧ n ≤ 57 then some (n - 48 + 52)
  else if n = 43 then some 62
  else if n = 47 then some 63
  else none

def base64Pad : UInt8 := 61

def base64Encode : Bytes → Bytes
  | [] => []
  | [a] => [base64Char (a.toNat / 4), base64Char (a.toNat % 4 * 16), base64Pad, base64Pad]
  | [a, b] =>
      [base64Char (a.toNat / 4), base64Char (a.toNat % 4 * 16 + b.toNat / 16),
        base64Char (b.toNat % 16 * 4), base64Pad]
  | a :: b :: c :: rest =>
      base64Char (a.toNat / 4) :: base64Char (a.toNat % 4 * 16 + b.toNat / 16) ::
        base64Char (b.toNat % 16 * 4 + c.toNat / 64) :: base64Char (c.toNat % 64) ::
        base64Encode rest

def base64Groups : Bytes → Except String Bytes
  | [] => .ok []
  | c₀ :: c₁ :: c₂ :: c₃ :: rest =>
      match base64Value c₀, base64Value c₁ with
      | some v₀, some v₁ =>
        if c₂ = base64Pad ∧ c₃ = base64Pad ∧ rest = [] then
          .ok [UInt8.ofNat (v₀ * 4 + v₁ / 16)]
        else match base64Value c₂ with
          | none => .error "illegal base64 data"
          | some v₂ =>
            if c₃ = base64Pad ∧ rest = [] then
              .ok [UInt8.ofNat (v₀ * 4 + v₁ / 16), UInt8.ofNat (v₁ % 16 * 16 + v₂ / 4)]
            else match base64Value c₃, base64Groups rest with
              | some v₃, .ok bs =>
                .ok (UInt8.ofNat (v₀ * 4 + v₁ / 16) :: UInt8.ofNat (v₁ % 16 * 16 + v₂ / 4) ::
                  UInt8.ofNat (v₂ % 4 * 64 + v₃) :: bs)
              | _, _ => .error "illegal base64 data"
      | _, _ => .error "illegal base64 data"
  | _ => .error "illegal base64 data"

def base64Decode (s : Bytes) : Except String Bytes :=
  base64Groups (s.filter fun c => c ≠ 10 ∧ c ≠ 13)

theorem base64Char_facts : ∀ n < 64, base64Value (base64Char n) = some n ∧
    base64Char n ≠ base64Pad ∧ base64Char n ≠ 10 ∧ base64Char n ≠ 13 := by
  decide

theorem base64Value_char {n : Nat} (h : n < 64) : base64Value (base64Char n) = some n :=
  (base64Char_facts n h).1

theorem base64Char_ne_pad {n : Nat} (h : n < 64) : base64Char n ≠ base64Pad :=
  (base64Char_facts n h).2.1

theorem base64Char_printable {n : Nat} (h : n < 64) : base64Char n ≠ 10 ∧ base64Char n ≠ 13 :=
  (base64Char_facts n h).2.2

theorem base64Pad_printable : base64Pad ≠ 10 ∧ base64Pad ≠ 13 := by decide

theorem base64Groups_base64Encode : ∀ bs : Bytes, base64Groups (base64Encode bs) = .ok bs
  | [] => rfl
  | [a] => by
    have ha := a.toNat_lt
    have hback : a.toNat / 4 * 4 + a.toNat % 4 * 16 / 16 = a.toNat := by omega
    simp only [base64Encode, base64Groups,
      base64Value_char (show a.toNat / 4 < 64 by omega),
      base64Value_char (show a.toNat % 4 * 16 < 64 by omega), true_and, if_true, hback,
      UInt8.ofNat_toNat]
  | [a, b] => by
    have ha := a.toNat_lt
    have hb := b.toNat_lt
    have hback : a.toNat / 4 * 4 + (a.toNat % 4 * 16 + b.toNat / 16) / 16 = a.toNat := by omega
    have hback' : (a.toNat % 4 * 16 + b.toNat / 16) % 16 * 16 + b.toNat % 16 * 4 / 4 =
        b.toNat := by omega
    simp only [base64Encode, base64Groups,
      base64Value_char (show a.toNat / 4 < 64 by omega),
      base64Value_char (show a.toNat % 4 * 16 + b.toNat / 16 < 64 by omega),
      base64Value_char (show b.toNat % 16 * 4 < 64 by omega),
      base64Char_ne_pad (show b.toNat % 16 * 4 < 64 by omega), false_and, if_false, true_and,
      if_true, hback, hback', UInt8.ofNat_toNat]
  | a :: b :: c :: rest => by
    have ha := a.toNat_lt
    have hb := b.toNat_lt
    have hc := c.toNat_lt
    have hback : a.toNat / 4 * 4 + (a.toNat % 4 * 16 + b.toNat / 16) / 16 = a.toNat := by omega
    have hback' : (a.toNat % 4 * 16 + b.toNat / 16) % 16 * 16 +
        (b.toNat % 16 * 4 + c.toNat / 64) / 4 = b.toNat := by omega
    have hback'' : (b.toNat % 16 * 4 + c.toNat / 64) % 4 * 64 + c.toNat % 64 = c.toNat := by
      omega
    simp only [base64Encode, base64Groups,
      base64Value_char (show a.toNat / 4 < 64 by omega),
      base64Value_char (show a.toNat % 4 * 16 + b.toNat / 16 < 64 by omega),
      base64Value_char (show b.toNat % 16 * 4 + c.toNat / 64 < 64 by omega),
      base64Value_char (show c.toNat % 64 < 64 by omega),
      base64Char_ne_pad (show b.toNat % 16 * 4 + c.toNat / 64 < 64 by omega),
      base64Char_ne_pad (show c.toNat % 64 < 64 by omega), false_and, if_false,
      base64Groups_base64Encode rest, hback, hback', hback'', UInt8.ofNat_toNat]

theorem base64Encode_printable : ∀ bs : Bytes, ∀ c ∈ base64Encode bs, c ≠ 10 ∧ c ≠ 13
  | [] => by simp [base64Encode]
  | [a] => by
    have ha := a.toNat_lt
    simp only [base64Encode, List.mem_cons, List.not_mem_nil, or_false]
    rintro c (rfl | rfl | rfl | rfl)
    · exact base64Char_printable (by omega)
    · exact base64Char_printable (by omega)
    · exact base64Pad_printable
    · exact base64Pad_printable
  | [a, b] => by
    have ha := a.toNat_lt
    have hb := b.toNat_lt
    simp only [base64Encode, List.mem_cons, List.not_mem_nil, or_false]
    rintro c (rfl | rfl | rfl | rfl)
    · exact base64Char_printable (by omega)
    · exact base64Char_printable (by omega)
    · exact base64Char_printable (by omega)
    · exact base64Pad_printable
  | a :: b :: c :: rest => by
    have ha := a.toNat_lt
    have hb := b.toNat_lt
    have hc := c.toNat_lt
    simp only [base64Encode, List.mem_cons]
    rintro d (rfl | rfl | rfl | rfl | hd)
    · exact base64Char_printable (by omega)
    · exact base64Char_printable (by omega)
    · exact base64Char_printable (by omega)
    · exact base64Char_printable (by omega)
    · exact base64Encode_printable rest d hd

/-- Reading what was written gives the bytes back. -/
theorem base64Decode_base64Encode (bs : Bytes) : base64Decode (base64Encode bs) = .ok bs := by
  have hfilter : (base64Encode bs).filter (fun c => c ≠ 10 ∧ c ≠ 13) = base64Encode bs :=
    List.filter_eq_self.mpr fun c hc => by simpa using base64Encode_printable bs c hc
  rw [base64Decode, hfilter, base64Groups_base64Encode]

end FabricPeerExt.Lib
