/-
FabricPeerExt.Lib.CodecInstances — concrete codecs, computable and structurally recursive: the
laws of `Lib/Codec.lean` can be met.
-/
import FabricPeerExt.Lib.BigEndian

namespace FabricPeerExt.Lib

/-! ## Base-128 varints -/

/-- Seven bits a byte, lowest first, the high bit set on every byte but the last. -/
def encodeBase128 : Nat → Nat → Bytes
  | 0, n => [UInt8.ofNat n]
  | fuel + 1, n =>
      if n < 128 then [UInt8.ofNat n]
      else UInt8.ofNat (n % 128 + 128) :: encodeBase128 fuel (n / 128)

def decodeBase128 : Bytes → Except String (Nat × Nat)
  | [] => .error "unexpected EOF"
  | b :: bs =>
      if b.toNat < 128 then .ok (b.toNat, 1)
      else match decodeBase128 bs with
        | .error e => .error e
        | .ok (n, used) => .ok (b.toNat - 128 + 128 * n, used + 1)

theorem decodeBase128_encodeBase128 : ∀ (fuel n : Nat) (rest : Bytes), n < 128 ^ (fuel + 1) →
    decodeBase128 (encodeBase128 fuel n ++ rest) = .ok (n, (encodeBase128 fuel n).length)
  | 0, n, rest, h => by
    have hn : n < 128 := by simpa using h
    have hb : (UInt8.ofNat n).toNat = n :=
      UInt8.toNat_ofNat_of_lt' (Nat.lt_trans hn (by decide))
    simp [encodeBase128, decodeBase128, hb, hn]
  | fuel + 1, n, rest, h => by
    rw [encodeBase128]
    split
    · rename_i hn
      have hb : (UInt8.ofNat n).toNat = n :=
        UInt8.toNat_ofNat_of_lt' (Nat.lt_trans hn (by decide))
      simp [decodeBase128, hb, hn]
    · rename_i hge
      have hb : (UInt8.ofNat (n % 128 + 128)).toNat = n % 128 + 128 :=
        UInt8.toNat_ofNat_of_lt' (show n % 128 + 128 < 256 by omega)
      have hdiv : n / 128 < 128 ^ (fuel + 1) := by
        rw [pow_succ] at h; omega
      rw [List.cons_append, decodeBase128, hb, if_neg (by omega),
        decodeBase128_encodeBase128 fuel (n / 128) rest hdiv]
      simp only [List.length_cons, Nat.add_sub_cancel]
      congr 2
      omega

def base128 : Varint where
  encode n := encodeBase128 10 n.toNat
  decode bs := match decodeBase128 bs with
    | .error e => .error e
    | .ok (n, used) => .ok (UInt64.ofNat n, used)
  decode_encode := by
    intro n rest
    rw [decodeBase128_encodeBase128 10 n.toNat rest (Nat.lt_trans n.toNat_lt (by decide))]
    simp
  encode_small := by
    intro n hn
    have hlt : n < UInt64.size := Nat.lt_trans hn (by decide)
    rw [UInt64.toNat_ofNat_of_lt' hlt, encodeBase128, if_pos hn]

/-! ## Length-prefixed big-endian numbers -/

/-- The eight big-endian bytes without leading zeros, their number in front. -/
def encodeTrimmedBe (n : UInt64) : Bytes :=
  let bs := beBytes 8 n.toNat
  UInt8.ofNat (8 - leadCount 0 bs) :: bs.drop (leadCount 0 bs)

def decodeTrimmedBe : Bytes → Except String (UInt64 × Nat)
  | [] => .error "empty input"
  | b :: bs =>
      if 8 < b.toNat ∨ bs.length < b.toNat then .error "decoded size out of range"
      else .ok (UInt64.ofNat (ofBe (bs.take b.toNat)), b.toNat + 1)

theorem ofBe_replicate_zero_append (k : Nat) (bs : Bytes) :
    ofBe (List.replicate k 0 ++ bs) = ofBe bs := by
  induction k with
  | zero => rfl
  | succ k ih => rw [List.replicate_succ, List.cons_append, ofBe, ih]; simp

theorem decodeTrimmedBe_encodeTrimmedBe (n : UInt64) (rest : Bytes) :
    decodeTrimmedBe (encodeTrimmedBe n ++ rest) = .ok (n, (encodeTrimmedBe n).length) := by
  have hz := leadCount_le_length 0 (beBytes 8 n.toNat)
  rw [length_beBytes] at hz
  have hput := replicate_leadCount_append 0 (beBytes 8 n.toNat)
  have hval : ofBe ((beBytes 8 n.toNat).drop (leadCount 0 (beBytes 8 n.toNat))) = n.toNat := by
    rw [← ofBe_replicate_zero_append (leadCount 0 (beBytes 8 n.toNat)), hput,
      ofBe_beBytes (toNat_lt_pow n)]
  have hlen : ((beBytes 8 n.toNat).drop (leadCount 0 (beBytes 8 n.toNat))).length
      = 8 - leadCount 0 (beBytes 8 n.toNat) := by rw [List.length_drop, length_beBytes]
  have hb : (UInt8.ofNat (8 - leadCount 0 (beBytes 8 n.toNat))).toNat
      = 8 - leadCount 0 (beBytes 8 n.toNat) :=
    UInt8.toNat_ofNat_of_lt' (show 8 - leadCount 0 (beBytes 8 n.toNat) < 256 by omega)
  rw [encodeTrimmedBe, List.cons_append, decodeTrimmedBe, hb,
    if_neg (by rw [List.length_append, hlen]; omega), ← hlen, List.take_left, hval]
  simp

theorem encodeTrimmedBe_lt {m n : UInt64} (h : m < n) : encodeTrimmedBe m < encodeTrimmedBe n := by
  have hlt : beBytes 8 m.toNat < beBytes 8 n.toNat :=
    (beBytes_lt_iff (toNat_lt_pow m) (toNat_lt_pow n)).mpr (UInt64.lt_iff_toNat_lt.mp h)
  have hzm := leadCount_le_length 0 (beBytes 8 m.toNat)
  rw [length_beBytes] at hzm
  rw [encodeTrimmedBe, encodeTrimmedBe, List.cons_lt_cons_iff]
  rcases leadCount_zero_of_lt (by simp) hlt with hc | ⟨hc, hd⟩
  · left
    rw [UInt8.lt_iff_toNat_lt,
      UInt8.toNat_ofNat_of_lt' (show 8 - leadCount 0 (beBytes 8 m.toNat) < 256 by omega),
      UInt8.toNat_ofNat_of_lt' (show 8 - leadCount 0 (beBytes 8 n.toNat) < 256 by omega)]
    omega
  · right; exact ⟨by rw [hc], hd⟩

def trimmedBe : OrderPreserving where
  encode := encodeTrimmedBe
  decode := decodeTrimmedBe
  decode_encode := decodeTrimmedBe_encodeTrimmedBe
  encode_lt := encodeTrimmedBe_lt

/-! ## Combinators -/

namespace SelfDelimiting

variable {α β κ ν : Type}

def decodeTally : Bytes → Except String (Nat × Nat)
  | [] => .error "unexpected EOF"
  | b :: bs =>
      if b = 0 then .ok (0, 1)
      else match decodeTally bs with
        | .error e => .error e
        | .ok (n, used) => .ok (n + 1, used + 1)

def tally : SelfDelimiting Nat where
  encode n := List.replicate n 1 ++ [0]
  decode := decodeTally
  decode_encode := by
    intro n rest
    induction n with
    | zero => simp [decodeTally]
    | succ n ih =>
      rw [List.replicate_succ, List.cons_append, List.cons_append, decodeTally,
        if_neg (by decide), ih]
      simp

def byte : SelfDelimiting UInt8 where
  encode b := [b]
  decode
    | [] => .error "unexpected EOF"
    | b :: _ => .ok (b, 1)
  decode_encode := fun _ _ => rfl

def pair (c : SelfDelimiting α) (d : SelfDelimiting β) : SelfDelimiting (α × β) where
  encode p := c.encode p.1 ++ d.encode p.2
  decode bs := match c.decode bs with
    | .error e => .error e
    | .ok (a, used) => match d.decode (bs.drop used) with
      | .error e => .error e
      | .ok (b, used') => .ok ((a, b), used + used')
  decode_encode := by
    intro p rest
    rw [List.append_assoc, c.decode_encode]
    simp only [List.drop_left, d.decode_encode, List.length_append]

def listOf (c : SelfDelimiting α) : SelfDelimiting (List α) where
  encode as := tally.encode as.length ++ as.flatMap c.encode
  decode bs := match tally.decode bs with
    | .error e => .error e
    | .ok (n, used) => match c.decodeN n (bs.drop used) with
      | .error e => .error e
      | .ok (as, rest) => .ok (as, bs.length - rest.length)
  decode_encode := by
    intro as rest
    rw [List.append_assoc, tally.decode_encode]
    simp only [List.drop_left, c.decodeN_flatMap, List.length_append, ← Nat.add_assoc,
      Nat.add_sub_cancel]

def image (c : SelfDelimiting β) (f : α → β) (g : β → Option α) (h : ∀ a, g (f a) = some a) :
    SelfDelimiting α where
  encode a := c.encode (f a)
  decode bs := match c.decode bs with
    | .error e => .error e
    | .ok (b, used) => match g b with
      | none => .error "malformed value"
      | some a => .ok (a, used)
  decode_encode := by
    intro a rest
    rw [c.decode_encode]
    simp only [h]

theorem lt_pow_base128 (n : Nat) : n < 128 ^ (n + 1) :=
  Nat.lt_trans (Nat.lt_succ_self n) (Nat.lt_pow_self (by decide))

def natural : SelfDelimiting Nat where
  encode n := encodeBase128 n n
  decode := decodeBase128
  decode_encode := fun n rest => decodeBase128_encodeBase128 n n rest (lt_pow_base128 n)

/-- Twice the size of an integer, one less if it is negative. -/
def zigzag (i : Int) : Nat := if i < 0 then 2 * i.natAbs - 1 else 2 * i.natAbs

def unzigzag (n : Nat) : Int := if n % 2 = 1 then -((n + 1) / 2 : Nat) else (n / 2 : Nat)

theorem unzigzag_zigzag (i : Int) : unzigzag (zigzag i) = i := by
  rw [zigzag, unzigzag]
  by_cases h : i < 0
  · rw [if_pos h, if_pos (by omega)]
    omega
  · rw [if_neg h, if_neg (by omega)]
    omega

def integer : SelfDelimiting Int :=
  natural.image zigzag (fun n => some (unzigzag n)) (fun i => congrArg some (unzigzag_zigzag i))

def toSigma (l : List (κ × ν)) : List (Sigma fun _ : κ => ν) := l.map fun p => ⟨p.1, p.2⟩

def ofPairs [DecidableEq κ] (l : List (κ × ν)) : Option (GoMap κ ν) :=
  if h : (toSigma l).keys.Nodup then some ⟨toSigma l, h⟩ else none

theorem ofPairs_toList [DecidableEq κ] (m : GoMap κ ν) : ofPairs m.toList = some m := by
  have hmap : toSigma m.toList = m.entries := by
    rw [toSigma, GoMap.toList, List.map_map]
    exact List.map_id _
  rw [ofPairs, dif_pos (by rw [hmap]; exact m.nodupKeys)]
  exact congrArg some (AList.ext hmap)

def mapOf [DecidableEq κ] (c : SelfDelimiting κ) (d : SelfDelimiting ν) :
    SelfDelimiting (GoMap κ ν) :=
  (listOf (pair c d)).image GoMap.toList ofPairs ofPairs_toList

end SelfDelimiting

end FabricPeerExt.Lib
