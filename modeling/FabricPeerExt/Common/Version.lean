/-
FabricPeerExt.Common.Version — `pkg/common/version`: the height of a transaction and its byte
form.
-/
import FabricPeerExt.Lib.Codec

namespace FabricPeerExt.Common

open Lib

/-- `Height`: the numbers of a block and of a transaction in it. -/
structure Height where
  blockNum : UInt64
  txNum : UInt64
  deriving DecidableEq, Repr

namespace Height

variable (c : OrderPreserving)

/-- `Height.ToBytes`. -/
def toBytes (h : Height) : Bytes := c.encode h.blockNum ++ c.encode h.txNum

/-- `NewHeightFromBytes`. -/
def newHeightFromBytes (b : Bytes) : Except String (Height × Nat) :=
  match c.decode b with
  | .error e => .error e
  | .ok (blockNum, n1) => match c.decode (b.drop n1) with
    | .error e => .error e
    | .ok (txNum, n2) => .ok (⟨blockNum, txNum⟩, n1 + n2)

/-- A height reads back from its bytes, whatever follows them. -/
theorem newHeightFromBytes_toBytes (h : Height) (rest : Bytes) :
    newHeightFromBytes c (h.toBytes c ++ rest) = .ok (h, (h.toBytes c).length) := by
  rw [newHeightFromBytes, toBytes, List.append_assoc, c.decode_encode]
  simp only [List.drop_left, c.decode_encode, List.length_append]

/-- Byte order on heights followed by anything is the order of block number,
then transaction number, then the rest. -/
theorem toBytes_append_lt_iff {h h' : Height} {r r' : Bytes} :
    h.toBytes c ++ r < h'.toBytes c ++ r' ↔
      h.blockNum < h'.blockNum ∨ h.blockNum = h'.blockNum ∧
        (h.txNum < h'.txNum ∨ h.txNum = h'.txNum ∧ r < r') := by
  rw [toBytes, toBytes, List.append_assoc, List.append_assoc, c.append_lt_iff, c.append_lt_iff]

/-! ## Comparison -/

/-- `Height.Compare`: the conversion of the difference to `int` keeps its 64 bits. -/
def compare (h h1 : Height) : Int :=
  if h.blockNum ≠ h1.blockNum then signOf (h.blockNum - h1.blockNum).toInt64
  else if h.txNum ≠ h1.txNum then signOf (h.txNum - h1.txNum).toInt64
  else 0
where
  signOf (res : Int64) : Int := if 0 < res then 1 else -1

def Before (h h1 : Height) : Prop :=
  h.blockNum < h1.blockNum ∨ h.blockNum = h1.blockNum ∧ h.txNum < h1.txNum

def Near (m n : UInt64) : Prop := m.toNat < n.toNat + 2 ^ 63 ∧ n.toNat < m.toNat + 2 ^ 63

/-- The numbers that decide between two heights are near. -/
def Close (h h1 : Height) : Prop :=
  if h.blockNum = h1.blockNum then Near h.txNum h1.txNum else Near h.blockNum h1.blockNum

structure Consistent (S : Set Height) : Prop where
  sign : ∀ h ∈ S, ∀ h1 ∈ S, (h.compare h1 < 0 ↔ h.Before h1) ∧ (h.compare h1 = 0 ↔ h = h1) ∧
    (0 < h.compare h1 ↔ h1.Before h)
  antisymm : ∀ h ∈ S, ∀ h1 ∈ S, h1.compare h = -h.compare h1
  trans : ∀ h ∈ S, ∀ h1 ∈ S, ∀ h2 ∈ S, h.compare h1 ≤ 0 → h1.compare h2 ≤ 0 → h.compare h2 ≤ 0
  bytes : ∀ h ∈ S, ∀ h1 ∈ S, h.compare h1 < 0 ↔ h.toBytes c < h1.toBytes c
  roundTrip : ∀ h ∈ S, ∀ rest,
    newHeightFromBytes c (h.toBytes c ++ rest) = .ok (h, (h.toBytes c).length)

theorem signOf_eq (m n : UInt64) : compare.signOf (m - n).toInt64 =
    if n.toNat < m.toNat ∧ m.toNat < n.toNat + 2 ^ 63 ∨ m.toNat + 2 ^ 63 < n.toNat then 1
    else -1 := by
  have hm := m.toNat_lt
  have hn := n.toNat_lt
  unfold compare.signOf
  refine if_congr ?_ rfl rfl
  rw [Int64.lt_iff_toInt_lt, Int64.toInt_zero, ← Int64.toInt_toBitVec, UInt64.toBitVec_toInt64,
    BitVec.toInt_eq_toNat_cond, UInt64.toNat_toBitVec, UInt64.toNat_sub]
  omega

variable {h h1 : Height}

def rank (h : Height) : Nat := h.blockNum.toNat * 2 ^ 64 + h.txNum.toNat

theorem before_iff_rank : h.Before h1 ↔ h.rank < h1.rank := by
  have ht := h.txNum.toNat_lt
  have ht1 := h1.txNum.toNat_lt
  simp only [Before, rank, UInt64.lt_iff_toNat_lt, ← UInt64.toNat_inj]
  omega

theorem eq_iff_rank : h = h1 ↔ h.rank = h1.rank := by
  obtain ⟨b, t⟩ := h
  obtain ⟨b1, t1⟩ := h1
  have ht := t.toNat_lt
  have ht1 := t1.toNat_lt
  simp only [rank, mk.injEq, ← UInt64.toNat_inj]
  omega

/-- Close heights are compared as their ranks are. -/
theorem compare_of_close (hc : h.Close h1) :
    h.compare h1 = -1 ∧ h.rank < h1.rank ∨ h.compare h1 = 0 ∧ h.rank = h1.rank ∨
      h.compare h1 = 1 ∧ h1.rank < h.rank := by
  have ht := h.txNum.toNat_lt
  have ht1 := h1.txNum.toNat_lt
  simp only [Close, Near, rank, compare, signOf_eq, ← UInt64.toNat_inj, ne_eq, ite_not] at hc ⊢
  split_ifs at hc ⊢ <;> omega

theorem close_of_sign (h01 : 0 < h.compare h1 ↔ h1.Before h)
    (h10 : 0 < h1.compare h ↔ h.Before h1) : h.Close h1 := by
  simp only [Close, Near, compare, Before, signOf_eq, UInt64.lt_iff_toNat_lt, ne_eq, ite_not,
    ← UInt64.toNat_inj] at h01 h10 ⊢
  split_ifs at h01 h10 ⊢ <;> omega

/-- The comparison is consistent on the sets of heights that are close to each other. -/
theorem consistent_iff_close (S : Set Height) :
    Consistent c S ↔ ∀ h ∈ S, ∀ h1 ∈ S, h.Close h1 := by
  constructor
  · intro hs h hh h1 hh1
    exact close_of_sign (hs.sign h hh h1 hh1).2.2 (hs.sign h1 hh1 h hh).2.2
  intro hclose
  have hcmp := fun h hh h1 hh1 => compare_of_close (hclose h hh h1 hh1)
  refine ⟨?_, ?_, ?_, ?_, fun h _ => newHeightFromBytes_toBytes c h⟩
  · intro h hh h1 hh1
    have h01 := hcmp h hh h1 hh1
    rw [before_iff_rank, eq_iff_rank, before_iff_rank]
    omega
  · intro h hh h1 hh1
    have h01 := hcmp h hh h1 hh1
    have h10 := hcmp h1 hh1 h hh
    omega
  · intro h hh h1 hh1 h2 hh2
    have h01 := hcmp h hh h1 hh1
    have h12 := hcmp h1 hh1 h2 hh2
    have h02 := hcmp h hh h2 hh2
    omega
  · intro h hh h1 hh1
    have h01 := hcmp h hh h1 hh1
    have hbytes : h.toBytes c < h1.toBytes c ↔ h.Before h1 := by
      simpa [Before] using @toBytes_append_lt_iff c h h1 [] []
    rw [hbytes, before_iff_rank]
    omega

/-- Block numbers 2^63 apart: the later height is compared as if it were the earlier one. -/
theorem compare_far : compare ⟨0x8000000000000000, 0⟩ ⟨0, 0⟩ = -1 ∧
    Before ⟨0, 0⟩ ⟨0x8000000000000000, 0⟩ ∧
      ∀ c, ¬ Consistent c {⟨0x8000000000000000, 0⟩, ⟨0, 0⟩} := by
  have hcmp : compare ⟨0x8000000000000000, 0⟩ ⟨0, 0⟩ = -1 := by decide
  have hbefore : Before ⟨0, 0⟩ ⟨0x8000000000000000, 0⟩ := Or.inl (by decide)
  refine ⟨hcmp, hbefore, fun c hs => ?_⟩
  have hpos := (hs.sign _ (by simp) _ (by simp)).2.2.mpr hbefore
  rw [hcmp] at hpos
  exact absurd hpos (by decide)

end Height

end FabricPeerExt.Common
