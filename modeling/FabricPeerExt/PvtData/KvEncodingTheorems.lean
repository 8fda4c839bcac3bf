/-
FabricPeerExt.PvtData.KvEncodingTheorems — the keys of `KvEncoding.lean` can be read back, do not
collide, and are ordered as the store relies on.
-/
import FabricPeerExt.PvtData.KvEncoding

namespace FabricPeerExt.PvtData

open Lib
open Common

/-! ## Names and separators -/

theorem NulFree.tail {b : UInt8} {s : GoString} (h : NulFree (b :: s)) : NulFree s :=
  fun hm => h (List.mem_cons_of_mem b hm)

theorem NulFree.head_ne {b : UInt8} {s : GoString} (h : NulFree (b :: s)) : b ≠ nilByte :=
  fun he => h (he ▸ List.mem_cons_self)

/-- The first separator after a NUL-free name is the one behind the name. -/
theorem cutNul_append : ∀ {s : GoString}, NulFree s → ∀ rest : Bytes,
    cutNul (s ++ nilByte :: rest) = some (s, rest)
  | [], _, rest => by simp [cutNul]
  | b :: s, h, rest => by
    rw [List.cons_append, cutNul, if_neg h.head_ne, cutNul_append h.tail rest]
    rfl

theorem cutNul_eq_none : ∀ {s : GoString}, NulFree s → cutNul s = none
  | [], _ => rfl
  | b :: s, h => by rw [cutNul, if_neg h.head_ne, cutNul_eq_none h.tail]; rfl

theorem nul_append_inj {s s' : GoString} (h : NulFree s) (h' : NulFree s') {r r' : Bytes}
    (heq : s ++ nilByte :: r = s' ++ nilByte :: r') : s = s' ∧ r = r' := by
  have hc := cutNul_append h r
  rw [heq, cutNul_append h' r'] at hc
  obtain ⟨h1, h2⟩ := Prod.mk.inj (Option.some.inj hc)
  exact ⟨h1.symm, h2.symm⟩

theorem splitN_three {ns coll : GoString} (hns : NulFree ns) (hcoll : NulFree coll) (r : Bytes) :
    splitN 3 (ns ++ nilByte :: (coll ++ nilByte :: r)) = [ns, coll, r] := by
  rw [splitN, cutNul_append hns]
  simp only [splitN, cutNul_append hcoll]

theorem splitN_two {ns coll : GoString} (hns : NulFree ns) (hcoll : NulFree coll) :
    ∀ n, splitN (n + 2) (ns ++ nilByte :: coll) = [ns, coll]
  | 0 | _ + 1 => by simp only [splitN, cutNul_append hns, cutNul_eq_none hcoll]

/-- With the separator behind them, NUL-free names come in byte order and what
follows decides only between equal names: the separator is the smallest byte. -/
theorem nul_append_lt_iff : ∀ {s s' : GoString}, NulFree s → NulFree s' → ∀ {r r' : Bytes},
    (s ++ nilByte :: r < s' ++ nilByte :: r' ↔ s < s' ∨ s = s' ∧ r < r')
  | [], [], _, _, r, r' => by simp
  | [], b :: s', _, h', r, r' => by
    have hb : nilByte < b := UInt8.pos_iff_ne_zero.mpr h'.head_ne
    simp [List.cons_lt_cons_iff, hb]
  | b :: s, [], h, _, r, r' => by
    have hb : nilByte < b := UInt8.pos_iff_ne_zero.mpr h.head_ne
    have hb' : ¬ b < nilByte := UInt8.lt_asymm hb
    simp [List.cons_lt_cons_iff, hb', h.head_ne]
  | b :: s, b' :: s', h, h', r, r' => by
    rw [List.cons_append, List.cons_append, List.cons_lt_cons_iff, List.cons_lt_cons_iff,
      nul_append_lt_iff h.tail h'.tail]
    simp only [List.cons.injEq]
    tauto

section
variable (x : Externals)

/-! ## The reverse-order encoding -/

/-- The number in front is a single byte: at most eight bytes are dropped. -/
theorem encodeReverseOrderVarUint64_eq (n : UInt64) :
    encodeReverseOrderVarUint64 x n =
      UInt8.ofNat (leadCount 255 (beBytes 8 (maxUint64 - n).toNat)) ::
        (beBytes 8 (maxUint64 - n).toNat).drop
          (leadCount 255 (beBytes 8 (maxUint64 - n).toNat)) := by
  have hle := leadCount_le_length 255 (beBytes 8 (maxUint64 - n).toNat)
  rw [length_beBytes] at hle
  have hsmall := x.varint.encode_small (leadCount 255 (beBytes 8 (maxUint64 - n).toNat))
    (by omega)
  rw [encodeReverseOrderVarUint64, hsmall, List.headD_cons]

theorem maxUint64_sub_toNat (n : UInt64) : (maxUint64 - n).toNat = 2 ^ 64 - 1 - n.toNat := by
  have hn : n.toNat < 2 ^ 64 := n.toNat_lt
  have hmax : maxUint64.toNat = 2 ^ 64 - 1 := by decide
  have h : n ≤ maxUint64 := by
    rw [UInt64.le_iff_toNat_le, hmax]
    omega
  rw [UInt64.toNat_sub_of_le _ _ h, hmax]

theorem decodeReverseOrderVarUint64_encode (n : UInt64) (rest : Bytes) :
    decodeReverseOrderVarUint64 x (encodeReverseOrderVarUint64 x n ++ rest) =
      .ok (n, (encodeReverseOrderVarUint64 x n).length) := by
  have hval := ofBe_beBytes (toNat_lt_pow (maxUint64 - n))
  have hle := leadCount_le_length 255 (beBytes 8 (maxUint64 - n).toNat)
  have hlen := length_beBytes 8 (maxUint64 - n).toNat
  rw [encodeReverseOrderVarUint64_eq]
  generalize beBytes 8 (maxUint64 - n).toNat = bytes at hval hle hlen
  have hput := replicate_leadCount_append 255 bytes
  generalize leadCount 255 bytes = z at hle hput
  have hdrop : (bytes.drop z).length = 8 - z := by rw [List.length_drop, hlen]
  have hdec : x.varint.decode (UInt8.ofNat z :: (bytes.drop z ++ rest)) =
      .ok (UInt64.ofNat z, 1) := by
    have h := x.varint.decode_encode (UInt64.ofNat z) (bytes.drop z ++ rest)
    rw [x.varint.encode_small z (by omega), List.singleton_append] at h
    exact h
  have hzn : (UInt64.ofNat z).toNat = z :=
    UInt64.toNat_ofNat_of_lt' (show z < UInt64.size by rw [UInt64.size]; omega)
  have htake : (bytes.drop z ++ rest).take (8 - z) = bytes.drop z := by
    rw [← hdrop, List.take_left]
  have hback : maxUint64 - UInt64.ofNat (maxUint64 - n).toNat = n := by
    have hn : n.toNat < 2 ^ 64 := n.toNat_lt
    rw [UInt64.ofNat_toNat, ← UInt64.toNat_inj, maxUint64_sub_toNat, maxUint64_sub_toNat]
    omega
  rw [List.cons_append, decodeReverseOrderVarUint64]
  simp only [hdec, hzn, List.drop_succ_cons, List.drop_zero, htake, hput, hval, hback]
  rw [if_neg, List.length_cons, hdrop]
  rw [List.length_cons, List.length_append, hdrop]
  omega

/-- A larger number has a smaller encoding. -/
theorem encodeReverseOrderVarUint64_lt {m n : UInt64} (h : m < n) :
    encodeReverseOrderVarUint64 x n < encodeReverseOrderVarUint64 x m := by
  have hmn : m.toNat < n.toNat := UInt64.lt_iff_toNat_lt.mp h
  have hn : n.toNat < 2 ^ 64 := n.toNat_lt
  have hlt : beBytes 8 (maxUint64 - n).toNat < beBytes 8 (maxUint64 - m).toNat := by
    refine (beBytes_lt_iff (toNat_lt_pow _) (toNat_lt_pow _)).mpr ?_
    rw [maxUint64_sub_toNat, maxUint64_sub_toNat]
    omega
  have hzn := leadCount_le_length 255 (beBytes 8 (maxUint64 - n).toNat)
  have hzm := leadCount_le_length 255 (beBytes 8 (maxUint64 - m).toNat)
  rw [length_beBytes] at hzn hzm
  rw [encodeReverseOrderVarUint64_eq, encodeReverseOrderVarUint64_eq, List.cons_lt_cons_iff]
  rcases leadCount_ff_of_lt (by simp) hlt with hc | ⟨hc, hd⟩
  · left
    rw [UInt8.lt_iff_toNat_lt, UInt8.toNat_ofNat_of_lt' (Nat.lt_of_le_of_lt hzn (by decide)),
      UInt8.toNat_ofNat_of_lt' (Nat.lt_of_le_of_lt hzm (by decide))]
    exact hc
  · right
    exact ⟨by rw [hc], hd⟩

theorem encodeReverseOrderVarUint64_lt_iff {m n : UInt64} :
    encodeReverseOrderVarUint64 x n < encodeReverseOrderVarUint64 x m ↔ m < n := by
  refine ⟨fun h => ?_, encodeReverseOrderVarUint64_lt x⟩
  by_contra hle
  rcases UInt64.le_iff_lt_or_eq.mp (UInt64.not_lt.mp hle) with hgt | rfl
  · exact List.lt_asymm h (encodeReverseOrderVarUint64_lt x hgt)
  · exact List.lt_irrefl _ h

def reverseOrder : SelfDelimiting UInt64 where
  encode := encodeReverseOrderVarUint64 x
  decode bs := match decodeReverseOrderVarUint64 x bs with
    | .ok r => .ok r
    | .error _ => .error "slice bounds out of range"
  decode_encode n rest := by rw [decodeReverseOrderVarUint64_encode]

/-! ## Keys of the documents -/

theorem decodeDatakey_encodeDataKey {key : DataKey} (h : NulFree key.ns) :
    decodeDatakey x (encodeDataKey x key) = .ok key := by
  rw [encodeDataKey, decodeDatakey, Height.newHeightFromBytes_toBytes]
  simp only [List.drop_left, cutNul_append h]

theorem encodeDataKey_injective {k k' : DataKey} (h : NulFree k.ns) (h' : NulFree k'.ns)
    (heq : encodeDataKey x k = encodeDataKey x k') : k = k' := by
  have hd := decodeDatakey_encodeDataKey x h
  rw [heq, decodeDatakey_encodeDataKey x h'] at hd
  exact (Except.ok.inj hd).symm

/-- Within a block, data keys are ordered by transaction, namespace, collection. -/
theorem encodeDataKey_lt_iff {k k' : DataKey} (hb : k.blkNum = k'.blkNum)
    (h : NulFree k.ns) (h' : NulFree k'.ns) :
    encodeDataKey x k < encodeDataKey x k' ↔ k.txNum < k'.txNum ∨ k.txNum = k'.txNum ∧
      (k.ns < k'.ns ∨ k.ns = k'.ns ∧ k.coll < k'.coll) := by
  rw [encodeDataKey, encodeDataKey, List.cons_lt_cons_self, Height.toBytes_append_lt_iff,
    nul_append_lt_iff h h', hb]
  simp

theorem decodeExpiryKey_encodeExpiryKey (ek : ExpiryKey) :
    decodeExpiryKey x (encodeExpiryKey x ek) = .ok ek := by
  have h := Height.newHeightFromBytes_toBytes x.orderPreservingVarUint64
    ⟨ek.expiringBlk, ek.committingBlk⟩ []
  rw [List.append_nil] at h
  rw [encodeExpiryKey, decodeExpiryKey, h]

theorem encodeExpiryKey_injective {k k' : ExpiryKey}
    (heq : encodeExpiryKey x k = encodeExpiryKey x k') : k = k' := by
  have hd := decodeExpiryKey_encodeExpiryKey x k
  rw [heq, decodeExpiryKey_encodeExpiryKey] at hd
  exact (Except.ok.inj hd).symm

/-! ## Keys of the missing-data index -/

/-- Keys of the two eligible groups agree only if group, block and names do. -/
theorem encodeElgMissingDataKey_injective {g g' : UInt8} {k k' : MissingDataKey}
    (h : NulFree k.ns) (h' : NulFree k'.ns)
    (heq : encodeElgMissingDataKey x g k = encodeElgMissingDataKey x g' k') :
    g = g' ∧ k = k' := by
  obtain ⟨hg, htail⟩ := List.cons.inj heq
  obtain ⟨hb, hnames⟩ := (reverseOrder x).prefix_free htail
  obtain ⟨hns, hcoll⟩ := nul_append_inj h h' hnames
  cases k; cases k'
  exact ⟨hg, by simp_all⟩

theorem encodeInelgMissingDataKey_injective {k k' : MissingDataKey}
    (h : NulFree k.ns) (h' : NulFree k'.ns) (hc : NulFree k.coll) (hc' : NulFree k'.coll)
    (heq : encodeInelgMissingDataKey x k = encodeInelgMissingDataKey x k') : k = k' := by
  obtain ⟨hns, htail⟩ := nul_append_inj h h' (List.cons.inj heq).2
  obtain ⟨hcoll, hblk⟩ := nul_append_inj hc hc' htail
  have hb := (reverseOrder x).encode_injective hblk
  cases k; cases k'
  simp_all

theorem decodeInelgMissingDataKey_encode {k : MissingDataKey} (h : NulFree k.ns)
    (hc : NulFree k.coll) :
    decodeInelgMissingDataKey x (encodeInelgMissingDataKey x k) = .ok k := by
  have hd := decodeReverseOrderVarUint64_encode x k.blkNum []
  rw [List.append_nil] at hd
  rw [decodeInelgMissingDataKey, encodeInelgMissingDataKey, List.drop_succ_cons, List.drop_zero,
    splitN_three h hc]
  simp only [hd]

theorem decodeElgMissingDataKey_of {k : MissingDataKey} {bs : Bytes} (g : UInt8)
    (h : NulFree k.ns) (hc : NulFree k.coll)
    (hdec : decodeReverseOrderVarUint64 x (bs ++ (k.ns ++ nilByte :: k.coll)) =
      .ok (k.blkNum, bs.length)) :
    decodeElgMissingDataKey x (g :: (bs ++ (k.ns ++ nilByte :: k.coll))) = .ok k := by
  have hlen : (k.ns ++ nilByte :: k.coll).length + 1 = k.ns.length + k.coll.length + 2 := by
    simp only [List.length_append, List.length_cons]
    omega
  rw [decodeElgMissingDataKey, List.drop_succ_cons, List.drop_zero, hdec]
  simp only [List.drop_succ_cons, List.drop_left, hlen, splitN_two h hc]

theorem decodeCollElgKey_encode (b : UInt64) :
    decodeCollElgKey x (encodeCollElgKey x b) = .ok b := by
  have hd := decodeReverseOrderVarUint64_encode x b []
  rw [List.append_nil] at hd
  rw [decodeCollElgKey, encodeCollElgKey, List.drop_succ_cons, List.drop_zero, hd]

def inelgPrefix (ns coll : GoString) : Bytes :=
  inelgMissingDataGroup :: (ns ++ nilByte :: (coll ++ [nilByte]))

/-! ## Keys of all groups -/

/-- The keys, by their groups. -/
inductive GroupKey where
  | data (key : DataKey)
  | elgPrio (key : MissingDataKey)
  | elgDeprio (key : MissingDataKey)
  | inelg (key : MissingDataKey)
  | collElg (blkNum : UInt64)

namespace GroupKey

def encode : GroupKey → Bytes
  | data key => encodeDataKey x key
  | elgPrio key => encodeElgPrioMissingDataKey x key
  | elgDeprio key => encodeElgDeprioMissingDataKey x key
  | inelg key => encodeInelgMissingDataKey x key
  | collElg blkNum => encodeCollElgKey x blkNum

def DecodesFrom (bs : Bytes) : GroupKey → Prop
  | data key => decodeDatakey x bs = .ok key
  | elgPrio key | elgDeprio key => decodeElgMissingDataKey x bs = .ok key
  | inelg key => decodeInelgMissingDataKey x bs = .ok key
  | collElg blkNum => decodeCollElgKey x bs = .ok blkNum

def Named : GroupKey → Prop
  | data key => NulFree key.ns ∧ NulFree key.coll
  | elgPrio key | elgDeprio key | inelg key => NulFree key.ns ∧ NulFree key.coll
  | collElg _ => True

theorem decodesFrom_encode : ∀ {k : GroupKey}, k.Named → k.DecodesFrom x (k.encode x)
  | data _, h => decodeDatakey_encodeDataKey x h.1
  | elgPrio _, h | elgDeprio _, h =>
    decodeElgMissingDataKey_of x _ h.1 h.2 (decodeReverseOrderVarUint64_encode x _ _)
  | inelg _, h => decodeInelgMissingDataKey_encode x h.1 h.2
  | collElg _, _ => decodeCollElgKey_encode x _

/-- The first byte tells the groups apart, and the decoder of the group the keys. -/
theorem encode_injective {k k' : GroupKey} (h : k.Named) (h' : k'.Named)
    (heq : k.encode x = k'.encode x) : k = k' := by
  have hd := decodesFrom_encode x h
  have hd' := decodesFrom_encode x h'
  rw [heq] at hd
  cases k <;> cases k' <;>
    first
      | exact absurd (List.cons.inj heq).1 (by decide)
      | exact congrArg _ (Except.ok.inj (hd.symm.trans hd'))

end GroupKey

theorem encodeInelgMissingDataKey_eq (k : MissingDataKey) :
    encodeInelgMissingDataKey x k =
      inelgPrefix k.ns k.coll ++ encodeReverseOrderVarUint64 x k.blkNum := by
  simp [encodeInelgMissingDataKey, inelgPrefix]

/-- The range scanned for a collection up to block `m` holds its ineligible keys from block 1
to `m` and no other key. -/
theorem mem_inelgRange_iff {ns coll : GoString} {m : UInt64} {k : GroupKey}
    (hns : NulFree ns) (hcoll : NulFree coll) (hk : k.Named) :
    (createRangeScanKeysForInelgMissingData x m ns coll).1 ≤ k.encode x ∧
      k.encode x < (createRangeScanKeysForInelgMissingData x m ns coll).2 ↔
      ∃ b, k = .inelg ⟨ns, coll, b⟩ ∧ 0 < b ∧ b ≤ m := by
  have horder : ∀ b : UInt64,
      (inelgPrefix ns coll ++ encodeReverseOrderVarUint64 x m ≤
          inelgPrefix ns coll ++ encodeReverseOrderVarUint64 x b ∧
        inelgPrefix ns coll ++ encodeReverseOrderVarUint64 x b <
          inelgPrefix ns coll ++ encodeReverseOrderVarUint64 x 0) ↔ 0 < b ∧ b ≤ m := by
    intro b
    rw [← List.not_lt, append_lt_append_left, append_lt_append_left,
      encodeReverseOrderVarUint64_lt_iff, encodeReverseOrderVarUint64_lt_iff, UInt64.not_lt,
      and_comm]
  simp only [createRangeScanKeysForInelgMissingData, encodeInelgMissingDataKey_eq]
  constructor
  · rintro ⟨hle, hlt⟩
    -- Both ends start with the prefix of the collection, so the key does too.
    obtain ⟨t, ht⟩ := prefix_of_between hle hlt
    cases k with
    | inelg k =>
      have hcut : ns ++ nilByte :: (coll ++ nilByte :: t) =
          k.ns ++ nilByte :: (k.coll ++ nilByte :: encodeReverseOrderVarUint64 x k.blkNum) := by
        simpa [inelgPrefix, GroupKey.encode, encodeInelgMissingDataKey] using ht
      obtain ⟨rfl, hrest⟩ := nul_append_inj hns hk.1 hcut
      obtain ⟨rfl, _⟩ := nul_append_inj hcoll hk.2 hrest
      rw [GroupKey.encode, encodeInelgMissingDataKey_eq] at hle hlt
      exact ⟨k.blkNum, rfl, (horder k.blkNum).mp ⟨hle, hlt⟩⟩
    | _ => exact absurd (List.cons.inj ht).1 (by decide)
  · rintro ⟨b, rfl, hb⟩
    rw [GroupKey.encode, encodeInelgMissingDataKey_eq]
    exact (horder b).mpr hb

/-- The numbers in reverse order read back, are ordered and are prefix-free; the keys built from
them read back and do not collide, and the range of the ineligible keys is exact. -/
theorem keys_faithful :
    (∀ n rest, decodeReverseOrderVarUint64 x (encodeReverseOrderVarUint64 x n ++ rest) =
      .ok (n, (encodeReverseOrderVarUint64 x n).length)) ∧
    (∀ m n, encodeReverseOrderVarUint64 x n < encodeReverseOrderVarUint64 x m ↔ m < n) ∧
    (∀ m n, encodeReverseOrderVarUint64 x m <+: encodeReverseOrderVarUint64 x n → m = n) ∧
    (∀ k : GroupKey, k.Named → k.DecodesFrom x (k.encode x)) ∧
    (∀ k k' : GroupKey, k.Named → k'.Named → k.encode x = k'.encode x → k = k') ∧
    ∀ ns coll, NulFree ns → NulFree coll → ∀ m, ∀ k : GroupKey, k.Named →
      ((createRangeScanKeysForInelgMissingData x m ns coll).1 ≤ k.encode x ∧
        k.encode x < (createRangeScanKeysForInelgMissingData x m ns coll).2 ↔
        ∃ b, k = .inelg ⟨ns, coll, b⟩ ∧ 0 < b ∧ b ≤ m) :=
  ⟨decodeReverseOrderVarUint64_encode x, fun _ _ => encodeReverseOrderVarUint64_lt_iff x,
    fun _ _ => SelfDelimiting.eq_of_encode_prefix (reverseOrder x),
    fun _ => GroupKey.decodesFrom_encode x, fun _ _ => GroupKey.encode_injective x,
    fun _ _ hns hcoll _ _ => mem_inelgRange_iff x hns hcoll⟩

end

end FabricPeerExt.PvtData
