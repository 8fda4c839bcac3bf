/-
FabricPeerExt.Lib.ByteOrder — byte strings in byte order, with the hexadecimal (`encoding/hex`)
and decimal (`strconv`) forms of Go.

A Go `string` and a Go `[]byte` are both `List UInt8`; Go's `<` on strings is the lexicographic
order of that list.
-/
import Mathlib.Data.List.Lex
import Mathlib.Data.List.Sort
import Mathlib.Tactic.Ring
import Mathlib.Tactic.IntervalCases

namespace FabricPeerExt.Lib

/-- A byte string: a Go `[]byte`, or a Go `string` as the bytes it holds. -/
abbrev Bytes := List UInt8

/-! ## §1 Order -/

/-- A common prefix does not change the order. -/
theorem append_lt_append_left (p : Bytes) {a b : Bytes} : p ++ a < p ++ b ↔ a < b := by
  induction p with
  | nil => rfl
  | cons c p ih => rw [List.cons_append, List.cons_append, List.cons_lt_cons_self, ih]

/-- If `a < b` and `a` is not a prefix of `b`, the order is decided inside
both strings and no suffix can change it. -/
theorem append_lt_append_of_lt : ∀ {a b : Bytes}, a < b → ¬ a <+: b →
    ∀ r r' : Bytes, a ++ r < b ++ r'
  | [], b, _, hp, _, _ => absurd (List.nil_prefix) hp
  | _ :: _, [], h, _, _, _ => absurd h (List.not_lt_nil _)
  | x :: a, y :: b, h, hp, r, r' => by
    rw [List.cons_append, List.cons_append, List.cons_lt_cons_iff]
    rcases List.cons_lt_cons_iff.mp h with hxy | ⟨rfl, hab⟩
    · exact Or.inl hxy
    · refine Or.inr ⟨rfl, append_lt_append_of_lt hab (fun hpre => hp ?_) r r'⟩
      exact List.cons_prefix_cons.mpr ⟨rfl, hpre⟩

/-- A string between two strings that share a prefix has that prefix too. -/
theorem prefix_of_between : ∀ {p a b k : Bytes}, p ++ a ≤ k → k < p ++ b → p <+: k
  | [], _, _, _, _, _ => List.nil_prefix
  | c :: p, a, b, [], h, _ => by simp at h
  | c :: p, a, b, x :: k, h, h' => by
    rw [List.cons_append, List.cons_le_cons_iff] at h
    rw [List.cons_append, List.cons_lt_cons_iff] at h'
    rcases h with hlt | ⟨rfl, hle⟩
    · rcases h' with hlt' | ⟨rfl, _⟩
      · exact absurd hlt' (UInt8.lt_asymm hlt)
      · exact absurd hlt (UInt8.lt_irrefl _)
    · rcases h' with hlt' | ⟨_, hlt'⟩
      · exact absurd hlt' (UInt8.lt_irrefl _)
      · exact List.cons_prefix_cons.mpr ⟨rfl, prefix_of_between hle hlt'⟩

/-- Byte order is total, so two different strings are ordered one way or the
other. -/
theorem lt_or_lt_of_ne {a b : Bytes} (h : a ≠ b) : a < b ∨ b < a := by
  rcases List.le_total a b with hab | hba
  · exact Or.inl ((List.le_iff_lt_or_eq.mp hab).resolve_right h)
  · exact Or.inr ((List.le_iff_lt_or_eq.mp hba).resolve_right (Ne.symm h))

/-! ## §2 Hexadecimal -/

/-- The digit of `encoding/hex` for a value below 16: `0`–`9`, then `a`–`f`. -/
def hexDigit (n : Nat) : UInt8 :=
  if n < 10 then UInt8.ofNat (48 + n) else UInt8.ofNat (87 + n)

def fromHexChar (c : UInt8) : Option Nat :=
  if 48 ≤ c ∧ c ≤ 57 then some (c.toNat - 48)
  else if 97 ≤ c ∧ c ≤ 102 then some (c.toNat - 87)
  else if 65 ≤ c ∧ c ≤ 70 then some (c.toNat - 55)
  else none

def hexEncode : Bytes → Bytes
  | [] => []
  | b :: bs => hexDigit (b.toNat / 16) :: hexDigit (b.toNat % 16) :: hexEncode bs

def hexDecode : Bytes → Except String Bytes
  | [] => .ok []
  | [c] =>
      match fromHexChar c with
      | none => .error "encoding/hex: invalid byte"
      | some _ => .error "encoding/hex: odd length hex string"
  | c :: d :: rest =>
      match fromHexChar c, fromHexChar d with
      | some hi, some lo =>
          match hexDecode rest with
          | .ok bs => .ok (UInt8.ofNat (16 * hi + lo) :: bs)
          | .error e => .error e
      | _, _ => .error "encoding/hex: invalid byte"

/-- Each of the sixteen digits reads back as its value. -/
theorem fromHexChar_hexDigit {n : Nat} (h : n < 16) : fromHexChar (hexDigit n) = some n := by
  interval_cases n <;> rfl

/-- Reading the hexadecimal form of a byte string gives it back. -/
theorem hexDecode_hexEncode (bs : Bytes) : hexDecode (hexEncode bs) = .ok bs := by
  induction bs with
  | nil => rfl
  | cons b bs ih =>
    have hb : b.toNat < 256 := b.toNat_lt
    have hsum : 16 * (b.toNat / 16) + b.toNat % 16 = b.toNat := Nat.div_add_mod _ _
    simp only [hexEncode, hexDecode, fromHexChar_hexDigit (show b.toNat / 16 < 16 by omega),
      fromHexChar_hexDigit (Nat.mod_lt b.toNat (by decide : 0 < 16)), ih, hsum,
      UInt8.ofNat_toNat]

/-- Two byte strings with one hexadecimal form are equal. -/
theorem hexEncode_injective {a b : Bytes} (h : hexEncode a = hexEncode b) : a = b := by
  have hd := hexDecode_hexEncode a
  rw [h, hexDecode_hexEncode b] at hd
  exact (Except.ok.inj hd).symm

/-- The digits are ordered as their values: `0`–`9` come before `a`–`f`. -/
theorem hexDigit_lt {m n : Nat} (h : m < n) (hn : n < 16) : hexDigit m < hexDigit n := by
  interval_cases n <;> interval_cases m <;> decide

theorem hexEncode_lt {a b : Bytes} (h : a < b) : hexEncode a < hexEncode b := by
  induction a generalizing b with
  | nil =>
    cases b with
    | nil => exact absurd h (List.not_lt_nil _)
    | cons y b => exact List.nil_lt_cons _ _
  | cons x a ih =>
    cases b with
    | nil => exact absurd h (List.not_lt_nil _)
    | cons y b =>
      have hy : y.toNat < 256 := y.toNat_lt
      rw [hexEncode, hexEncode, List.cons_lt_cons_iff, List.cons_lt_cons_iff]
      rcases List.cons_lt_cons_iff.mp h with hxy | ⟨rfl, hab⟩
      · have hlt : x.toNat < y.toNat := UInt8.lt_iff_toNat_lt.mp hxy
        -- The high digit decides unless the two bytes share it.
        rcases Nat.lt_or_ge (x.toNat / 16) (y.toNat / 16) with hhi | hhi
        · exact Or.inl (hexDigit_lt hhi (by omega))
        · have heq : x.toNat / 16 = y.toNat / 16 := by omega
          exact Or.inr ⟨by rw [heq], Or.inl (hexDigit_lt (by omega) (by omega))⟩
      · exact Or.inr ⟨rfl, Or.inr ⟨rfl, ih hab⟩⟩

/-- Sorting hexadecimal forms is sorting the byte strings. -/
theorem hexEncode_lt_iff {a b : Bytes} : hexEncode a < hexEncode b ↔ a < b := by
  refine ⟨fun h => ?_, hexEncode_lt⟩
  by_cases hab : a = b
  · subst hab; exact absurd h (List.lt_irrefl _)
  · exact (lt_or_lt_of_ne hab).resolve_right (fun hba => List.lt_asymm h (hexEncode_lt hba))

/-! ## §3 Decimal -/

def decDigit (n : Nat) : UInt8 := UInt8.ofNat (48 + n)

def formatDigits : Nat → Nat → Bytes
  | 0, _ => []
  | fuel + 1, n =>
      if n < 10 then [decDigit n] else formatDigits fuel (n / 10) ++ [decDigit (n % 10)]

/-- `strconv.FormatUint(n, 10)`: twenty digits hold every 64-bit number. -/
def formatUint (n : UInt64) : Bytes := formatDigits 20 n.toNat

/-- The number a string of digits stands for, `none` at the first byte that is
not a digit. `acc` is the value of the digits read so far. -/
def readDigits : Nat → Bytes → Option Nat
  | acc, [] => some acc
  | acc, c :: cs => if 48 ≤ c ∧ c ≤ 57 then readDigits (10 * acc + (c.toNat - 48)) cs else none

/-- `strconv.ParseInt(s, 10, 64)`: an optional sign, then digits, in the range
of a signed 64-bit integer. -/
def parseInt (s : Bytes) : Except String Int :=
  let (neg, body) := match s with
    | 43 :: rest => (false, rest)
    | 45 :: rest => (true, rest)
    | rest => (false, rest)
  if body = [] then .error "invalid syntax"
  else match readDigits 0 body with
    | none => .error "invalid syntax"
    | some n =>
        if neg then
          if n ≤ 2 ^ 63 then .ok (-(n : Int)) else .error "value out of range"
        else if n < 2 ^ 63 then .ok n else .error "value out of range"

theorem decDigit_toNat {n : Nat} (h : n < 10) : (decDigit n).toNat = 48 + n := by
  rw [decDigit, UInt8.toNat_ofNat_of_lt' (by simp [UInt8.size]; omega)]

theorem readDigits_append (ds es : Bytes) (acc : Nat) :
    readDigits acc (ds ++ es) = (readDigits acc ds).bind (fun n => readDigits n es) := by
  induction ds generalizing acc with
  | nil => rfl
  | cons c ds ih =>
    simp only [List.cons_append, readDigits]
    split
    · exact ih _
    · rfl

theorem readDigits_decDigit {n : Nat} (h : n < 10) (acc : Nat) :
    readDigits acc [decDigit n] = some (10 * acc + n) := by
  have hd := decDigit_toNat h
  have hrange : 48 ≤ decDigit n ∧ decDigit n ≤ 57 := by
    rw [UInt8.le_iff_toNat_le, UInt8.le_iff_toNat_le, hd]
    exact ⟨Nat.le_add_right 48 n, by show 48 + n ≤ 57; omega⟩
  simp only [readDigits, if_pos hrange, hd, Nat.add_sub_cancel_left]

/-- With enough digits the written form reads back as the number. -/
theorem readDigits_formatDigits : ∀ (fuel n : Nat), n < 10 ^ fuel → 0 < fuel →
    readDigits 0 (formatDigits fuel n) = some n
  | 0, _, _, h => absurd h (Nat.lt_irrefl 0)
  | fuel + 1, n, hn, _ => by
    rw [formatDigits]
    split
    · rename_i hlt
      rw [readDigits_decDigit hlt]; simp
    · rename_i hge
      have hfuel : 0 < fuel := by
        rcases fuel with _ | fuel
        · simp at hn; omega
        · omega
      have hdiv : n / 10 < 10 ^ fuel := by rw [pow_succ] at hn; omega
      rw [readDigits_append, readDigits_formatDigits fuel (n / 10) hdiv hfuel,
        Option.bind_some, readDigits_decDigit (Nat.mod_lt n (by decide))]
      rw [Nat.div_add_mod]

variable (n : UInt64)

theorem formatUint_lt : n.toNat < 10 ^ 20 :=
  Nat.lt_of_lt_of_le n.toNat_lt (by decide)

theorem readDigits_formatUint : readDigits 0 (formatUint n) = some n.toNat :=
  readDigits_formatDigits 20 n.toNat (formatUint_lt n) (by decide)

def IsDigits (ds : Bytes) : Prop := ∀ c ∈ ds, 48 ≤ c ∧ c ≤ 57

def decValue : Bytes → Nat
  | [] => 0
  | c :: cs => (c.toNat - 48) * 10 ^ cs.length + decValue cs

theorem isDigits_decDigit {n : Nat} (h : n < 10) : IsDigits [decDigit n] := by
  intro c hc
  rw [List.mem_singleton.mp hc, UInt8.le_iff_toNat_le, UInt8.le_iff_toNat_le, decDigit_toNat h]
  exact ⟨Nat.le_add_right 48 n, by show 48 + n ≤ 57; omega⟩

theorem isDigits_append {ds es : Bytes} (hd : IsDigits ds) (he : IsDigits es) :
    IsDigits (ds ++ es) :=
  fun c hc => (List.mem_append.mp hc).elim (hd c) (he c)

theorem isDigits_formatDigits : ∀ fuel n : Nat, IsDigits (formatDigits fuel n)
  | 0, _ => fun _ hc => absurd hc List.not_mem_nil
  | fuel + 1, n => by
    rw [formatDigits]
    split
    · rename_i hlt; exact isDigits_decDigit hlt
    · exact isDigits_append (isDigits_formatDigits fuel _)
        (isDigits_decDigit (Nat.mod_lt n (by decide)))

theorem digit_sub_lt {c : UInt8} (h : 48 ≤ c ∧ c ≤ 57) : c.toNat - 48 < 10 := by
  have h2 : c.toNat ≤ 57 := UInt8.le_iff_toNat_le.mp h.2
  omega

theorem decValue_lt {ds : Bytes} (h : IsDigits ds) : decValue ds < 10 ^ ds.length := by
  induction ds with
  | nil => simp [decValue]
  | cons c cs ih =>
    have hc := digit_sub_lt (h c (by simp))
    have hcs := ih (fun d hd => h d (List.mem_cons_of_mem c hd))
    have hmul : (c.toNat - 48) * 10 ^ cs.length ≤ 9 * 10 ^ cs.length :=
      Nat.mul_le_mul_right _ (by omega)
    rw [decValue, List.length_cons, pow_succ]
    omega

/-- `readDigits` on a digit string is its value, shifted by what was read before. -/
theorem readDigits_eq_decValue {ds : Bytes} (h : IsDigits ds) (acc : Nat) :
    readDigits acc ds = some (acc * 10 ^ ds.length + decValue ds) := by
  induction ds generalizing acc with
  | nil => simp [readDigits, decValue]
  | cons c cs ih =>
    rw [readDigits, if_pos (h c (by simp)), ih (fun d hd => h d (List.mem_cons_of_mem c hd)),
      decValue, List.length_cons, pow_succ]
    congr 1
    ring

/-- Digit strings of one length are ordered as their values. -/
theorem lt_iff_decValue_lt : ∀ {ds es : Bytes}, IsDigits ds → IsDigits es →
    ds.length = es.length → (ds < es ↔ decValue ds < decValue es)
  | [], [], _, _, _ => by simp [decValue]
  | [], _ :: _, _, _, h => by simp at h
  | _ :: _, [], _, _, h => by simp at h
  | c :: cs, d :: ds, hc, hd, hlen => by
    have hlen' : cs.length = ds.length := by simpa using hlen
    have hcs : IsDigits cs := fun x hx => hc x (List.mem_cons_of_mem c hx)
    have hds : IsDigits ds := fun x hx => hd x (List.mem_cons_of_mem d hx)
    have hvc := decValue_lt hcs
    have hvd := decValue_lt hds
    have hc48 : 48 ≤ c.toNat := UInt8.le_iff_toNat_le.mp (hc c (by simp)).1
    have hd48 : 48 ≤ d.toNat := UInt8.le_iff_toNat_le.mp (hd d (by simp)).1
    rw [List.cons_lt_cons_iff, lt_iff_decValue_lt hcs hds hlen', decValue, decValue, hlen',
      UInt8.lt_iff_toNat_lt]
    rw [hlen'] at hvc
    rcases Nat.lt_trichotomy c.toNat d.toNat with hlt | heq | hgt
    · have hstep : (c.toNat - 48 + 1) * 10 ^ ds.length ≤ (d.toNat - 48) * 10 ^ ds.length :=
        Nat.mul_le_mul_right _ (by omega)
      rw [Nat.add_mul] at hstep
      exact iff_of_true (Or.inl hlt) (by omega)
    · obtain rfl : c = d := UInt8.toNat_inj.mp heq
      simp
    · have hstep : (d.toNat - 48 + 1) * 10 ^ ds.length ≤ (c.toNat - 48) * 10 ^ ds.length :=
        Nat.mul_le_mul_right _ (by omega)
      rw [Nat.add_mul] at hstep
      refine iff_of_false ?_ (by omega)
      rintro (hlt | ⟨rfl, _⟩)
      · omega
      · exact Nat.lt_irrefl _ hgt

theorem decValue_formatUint : decValue (formatUint n) = n.toNat := by
  have h := readDigits_formatUint n
  rw [formatUint, readDigits_eq_decValue (isDigits_formatDigits 20 n.toNat)] at h
  simpa [formatUint] using h

theorem length_formatDigits_le : ∀ fuel n : Nat, (formatDigits fuel n).length ≤ fuel
  | 0, _ => Nat.le_refl 0
  | fuel + 1, n => by
    rw [formatDigits]
    split
    · simp
    · rw [List.length_append, List.length_singleton]
      exact Nat.succ_le_succ (length_formatDigits_le fuel _)

theorem formatUint_ne_nil : formatUint n ≠ [] := by
  rw [formatUint, formatDigits]
  split <;> simp

theorem decValue_replicate_append (k : Nat) (ds : Bytes) :
    decValue (List.replicate k 48 ++ ds) = decValue ds := by
  induction k with
  | zero => rfl
  | succ k ih => rw [List.replicate_succ, List.cons_append, decValue, ih]; simp

/-- Zero padding to a width every number fits in keeps numbers ordered. -/
theorem leftpad_formatUint_lt_iff {w : Nat} (hw : 20 ≤ w) {m n : UInt64} :
    (formatUint m).leftpad w 48 < (formatUint n).leftpad w 48 ↔ m < n := by
  have hdig : ∀ k : UInt64, IsDigits ((formatUint k).leftpad w 48) := fun k =>
    isDigits_append (fun c hc => by rw [List.eq_of_mem_replicate hc]; decide)
      (isDigits_formatDigits 20 _)
  have hlen : ∀ k : UInt64, ((formatUint k).leftpad w 48).length = w := fun k => by
    have := length_formatDigits_le 20 k.toNat
    rw [List.length_leftpad, formatUint]
    omega
  have hval : ∀ k : UInt64, decValue ((formatUint k).leftpad w 48) = k.toNat := fun k => by
    rw [List.leftpad, decValue_replicate_append, decValue_formatUint]
  rw [lt_iff_decValue_lt (hdig m) (hdig n) (by rw [hlen, hlen]), hval, hval,
    UInt64.lt_iff_toNat_lt]

theorem leftpad_formatUint_injective {w : Nat} (hw : 20 ≤ w) {m n : UInt64}
    (h : (formatUint m).leftpad w 48 = (formatUint n).leftpad w 48) : m = n := by
  have hm := mt (leftpad_formatUint_lt_iff hw (m := m) (n := n)).mpr
    (by rw [h]; exact List.lt_irrefl _)
  have hn := mt (leftpad_formatUint_lt_iff hw (m := n) (n := m)).mpr
    (by rw [h]; exact List.lt_irrefl _)
  exact UInt64.le_antisymm (UInt64.not_lt.mp hn) (UInt64.not_lt.mp hm)

/-- `ParseInt` reads back what `FormatUint` wrote exactly when the number fits
in a signed 64-bit integer; the upper half of the range is refused. -/
theorem parseInt_formatUint :
    parseInt (formatUint n) =
      if n.toNat < 2 ^ 63 then .ok (n.toNat : Int) else .error "value out of range" := by
  have hread := readDigits_formatUint n
  have hne := formatUint_ne_nil n
  have hdig := isDigits_formatDigits 20 n.toNat
  rw [← formatUint] at hdig
  -- The first byte is a digit, so neither sign branch is taken.
  rcases hs : formatUint n with _ | ⟨c, cs⟩
  · exact absurd hs hne
  · have hc := hdig c (by rw [hs]; simp)
    have h43 : c ≠ 43 := by rintro rfl; exact absurd hc.1 (by decide)
    have h45 : c ≠ 45 := by rintro rfl; exact absurd hc.1 (by decide)
    rw [hs] at hread
    unfold parseInt
    split
    rename_i neg body hbody
    have hb : neg = false ∧ body = c :: cs := by
      split at hbody
      · rename_i heq; exact absurd (List.cons.inj heq).1 h43
      · rename_i heq; exact absurd (List.cons.inj heq).1 h45
      · exact ⟨(Prod.mk.inj hbody).1.symm, (Prod.mk.inj hbody).2.symm⟩
    rw [hb.1, hb.2, if_neg (List.cons_ne_nil c cs), hread]
    simp

end FabricPeerExt.Lib
