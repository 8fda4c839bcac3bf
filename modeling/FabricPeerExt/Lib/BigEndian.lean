/-
FabricPeerExt.Lib.BigEndian — fixed-width big-endian numbers, and forms without a run of leading
bytes.
-/
import FabricPeerExt.Lib.Codec

namespace FabricPeerExt.Lib

def beBytes : Nat → Nat → Bytes
  | 0, _ => []
  | k + 1, n => UInt8.ofNat (n / 256 ^ k) :: beBytes k (n % 256 ^ k)

def ofBe : Bytes → Nat
  | [] => 0
  | b :: bs => b.toNat * 256 ^ bs.length + ofBe bs

@[simp] theorem length_beBytes (k n : Nat) : (beBytes k n).length = k := by
  induction k generalizing n with
  | zero => rfl
  | succ k ih => rw [beBytes, List.length_cons, ih]

theorem ofBe_lt (bs : Bytes) : ofBe bs < 256 ^ bs.length := by
  induction bs with
  | nil => simp [ofBe]
  | cons b bs ih =>
    have hb : b.toNat ≤ 255 := Nat.le_of_lt_succ b.toNat_lt
    have hmul : b.toNat * 256 ^ bs.length ≤ 255 * 256 ^ bs.length := Nat.mul_le_mul_right _ hb
    rw [ofBe, List.length_cons, pow_succ]
    omega

/-- Reading back a number that fits. -/
theorem ofBe_beBytes : ∀ {k n : Nat}, n < 256 ^ k → ofBe (beBytes k n) = n
  | 0, n, h => by simp at h; simp [beBytes, ofBe, h]
  | k + 1, n, h => by
    have hpos : 0 < 256 ^ k := Nat.pow_pos (by decide)
    have hdiv : n / 256 ^ k < 256 := by
      rw [Nat.div_lt_iff_lt_mul hpos]
      rw [pow_succ] at h; omega
    rw [beBytes, ofBe, length_beBytes, ofBe_beBytes (Nat.mod_lt n hpos),
      UInt8.toNat_ofNat_of_lt' hdiv, Nat.mul_comm]
    exact Nat.div_add_mod n (256 ^ k)

/-- Byte strings of one length are ordered as the numbers they stand for. -/
theorem lt_iff_ofBe_lt : ∀ {as bs : Bytes}, as.length = bs.length →
    (as < bs ↔ ofBe as < ofBe bs)
  | [], [], _ => by simp
  | [], _ :: _, h => by simp at h
  | _ :: _, [], h => by simp at h
  | a :: as, b :: bs, h => by
    have hlen : as.length = bs.length := by simpa using h
    have hva := ofBe_lt as
    have hvb := ofBe_lt bs
    rw [List.cons_lt_cons_iff, lt_iff_ofBe_lt hlen, ofBe, ofBe, hlen, UInt8.lt_iff_toNat_lt]
    rw [hlen] at hva
    rcases Nat.lt_trichotomy a.toNat b.toNat with hlt | heq | hgt
    · have hstep : (a.toNat + 1) * 256 ^ bs.length ≤ b.toNat * 256 ^ bs.length :=
        Nat.mul_le_mul_right _ hlt
      rw [Nat.add_mul] at hstep
      exact iff_of_true (Or.inl hlt) (by omega)
    · obtain rfl : a = b := UInt8.toNat_inj.mp heq
      simp
    · have hstep : (b.toNat + 1) * 256 ^ bs.length ≤ a.toNat * 256 ^ bs.length :=
        Nat.mul_le_mul_right _ hgt
      rw [Nat.add_mul] at hstep
      refine iff_of_false ?_ (by omega)
      rintro (hlt | ⟨rfl, _⟩)
      · omega
      · exact Nat.lt_irrefl _ hgt

theorem beBytes_lt_iff {k m n : Nat} (hm : m < 256 ^ k) (hn : n < 256 ^ k) :
    beBytes k m < beBytes k n ↔ m < n := by
  rw [lt_iff_ofBe_lt (by simp), ofBe_beBytes hm, ofBe_beBytes hn]

/-- Every 64-bit number fits in eight bytes. -/
theorem toNat_lt_pow (n : UInt64) : n.toNat < 256 ^ 8 :=
  Nat.lt_of_lt_of_le n.toNat_lt (by decide)

def leadCount (c : UInt8) : Bytes → Nat
  | [] => 0
  | b :: bs => if b = c then leadCount c bs + 1 else 0

theorem leadCount_le_length (c : UInt8) (bs : Bytes) : leadCount c bs ≤ bs.length := by
  induction bs with
  | nil => exact Nat.le_refl 0
  | cons b bs ih =>
    rw [leadCount, List.length_cons]
    split
    · exact Nat.succ_le_succ ih
    · exact Nat.zero_le _

/-- The dropped run can be put back from its length. -/
theorem replicate_leadCount_append (c : UInt8) (bs : Bytes) :
    List.replicate (leadCount c bs) c ++ bs.drop (leadCount c bs) = bs := by
  induction bs with
  | nil => rfl
  | cons b bs ih =>
    rw [leadCount]
    split
    · rename_i h; subst h
      rw [List.replicate_succ, List.drop_succ_cons, List.cons_append, ih]
    · rfl

/-- Dropping leading `0xff` bytes: the smaller string has fewer of them, or as
many and a smaller remainder. -/
theorem leadCount_ff_of_lt : ∀ {as bs : Bytes}, as.length = bs.length → as < bs →
    leadCount 255 as < leadCount 255 bs ∨ leadCount 255 as = leadCount 255 bs ∧
      as.drop (leadCount 255 as) < bs.drop (leadCount 255 bs)
  | [], [], _, h => absurd h (List.not_lt_nil _)
  | [], _ :: _, hl, _ => by simp at hl
  | _ :: _, [], hl, _ => by simp at hl
  | a :: as, b :: bs, hl, h => by
    have hlen : as.length = bs.length := by simpa using hl
    rcases List.cons_lt_cons_iff.mp h with hab | ⟨rfl, hlt⟩
    · have ha : a ≠ 255 := by
        rintro rfl
        exact absurd (UInt8.lt_iff_toNat_lt.mp hab)
          (Nat.not_lt.mpr (Nat.le_of_lt_succ b.toNat_lt))
      by_cases hb : b = 255
      · left; simp [leadCount, ha, hb]
      · right; simp [leadCount, ha, hb, List.cons_lt_cons_iff, hab]
    · by_cases ha : a = 255
      · rcases leadCount_ff_of_lt hlen hlt with hc | ⟨hc, hd⟩
        · left; simp [leadCount, ha, hc]
        · rw [hc] at hd
          right; simp [leadCount, ha, hc, hd]
      · right; simp [leadCount, ha, hlt]

/-- Dropping leading zero bytes: the smaller string has more of them, or as
many and a smaller remainder. -/
theorem leadCount_zero_of_lt : ∀ {as bs : Bytes}, as.length = bs.length → as < bs →
    leadCount 0 bs < leadCount 0 as ∨ leadCount 0 as = leadCount 0 bs ∧
      as.drop (leadCount 0 as) < bs.drop (leadCount 0 bs)
  | [], [], _, h => absurd h (List.not_lt_nil _)
  | [], _ :: _, hl, _ => by simp at hl
  | _ :: _, [], hl, _ => by simp at hl
  | a :: as, b :: bs, hl, h => by
    have hlen : as.length = bs.length := by simpa using hl
    rcases List.cons_lt_cons_iff.mp h with hab | ⟨rfl, hlt⟩
    · have hb : b ≠ 0 := by
        rintro rfl
        exact absurd (UInt8.lt_iff_toNat_lt.mp hab) (Nat.not_lt_zero _)
      by_cases ha : a = 0
      · left; simp [leadCount, ha, hb]
      · right; simp [leadCount, ha, hb, List.cons_lt_cons_iff, hab]
    · by_cases ha : a = 0
      · rcases leadCount_zero_of_lt hlen hlt with hc | ⟨hc, hd⟩
        · left; simp [leadCount, ha, hc]
        · rw [hc] at hd
          right; simp [leadCount, ha, hc, hd]
      · right; simp [leadCount, ha, hlt]

end FabricPeerExt.Lib
