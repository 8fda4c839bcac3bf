/-
FabricPeerExt.Lib.Strconv — numbers as `strconv` writes and reads them: base 16, and base 10 for
unsigned numbers.
-/
import FabricPeerExt.Lib.ByteOrder

namespace FabricPeerExt.Lib

def formatHexDigits : Nat → Nat → Bytes
  | 0, _ => []
  | fuel + 1, n =>
      if n < 16 then [hexDigit n] else formatHexDigits fuel (n / 16) ++ [hexDigit (n % 16)]

/-- `strconv.FormatInt(n, 16)` of a number that is not negative. -/
def formatInt16 (n : Nat) : Bytes := formatHexDigits 16 n

def readHexDigits : Nat → Bytes → Option Nat
  | acc, [] => some acc
  | acc, c :: cs => match fromHexChar c with
    | none => none
    | some d => readHexDigits (16 * acc + d) cs

/-- `strconv.ParseInt(s, 16, 32)`: an optional sign, then digits, in the range of a signed
32-bit integer. -/
def parseInt16 (s : Bytes) : Except String Int :=
  let (neg, body) := match s with
    | 43 :: rest => (false, rest)
    | 45 :: rest => (true, rest)
    | rest => (false, rest)
  if body = [] then .error "invalid syntax"
  else match readHexDigits 0 body with
    | none => .error "invalid syntax"
    | some n =>
        if neg then
          if n ≤ 2 ^ 31 then .ok (-(n : Int)) else .error "value out of range"
        else if n < 2 ^ 31 then .ok n else .error "value out of range"

theorem readHexDigits_append (ds es : Bytes) (acc : Nat) :
    readHexDigits acc (ds ++ es) = (readHexDigits acc ds).bind fun n => readHexDigits n es := by
  induction ds generalizing acc with
  | nil => rfl
  | cons c cs ih =>
    rw [List.cons_append, readHexDigits, readHexDigits]
    cases fromHexChar c with
    | none => rfl
    | some d => exact ih _

theorem readHexDigits_hexDigit {n : Nat} (h : n < 16) (acc : Nat) :
    readHexDigits acc [hexDigit n] = some (16 * acc + n) := by
  rw [readHexDigits, fromHexChar_hexDigit h]
  rfl

/-- With enough digits the written form reads back as the number. -/
theorem readHexDigits_formatHexDigits : ∀ (fuel n : Nat), n < 16 ^ fuel → 0 < fuel →
    readHexDigits 0 (formatHexDigits fuel n) = some n
  | fuel + 1, n, h, _ => by
    rw [formatHexDigits]
    split
    next hn => rw [readHexDigits_hexDigit hn]; simp
    next hn =>
      have hdiv : n / 16 < 16 ^ fuel := by
        rw [pow_succ] at h
        exact Nat.div_lt_of_lt_mul (by omega)
      have hpos : 0 < fuel := by
        rcases Nat.eq_zero_or_pos fuel with rfl | hpos
        · rw [Nat.zero_add, pow_one] at h
          exact absurd h hn
        · exact hpos
      rw [readHexDigits_append, readHexDigits_formatHexDigits fuel (n / 16) hdiv hpos,
        Option.bind_some, readHexDigits_hexDigit (Nat.mod_lt n (by decide))]
      congr 1
      omega

/-- The first byte written is a digit, and so neither sign. -/
theorem formatHexDigits_cons (fuel n : Nat) (hpos : 0 < fuel) :
    ∃ d rest, d < 16 ∧ formatHexDigits fuel n = hexDigit d :: rest := by
  induction fuel generalizing n with
  | zero => exact absurd hpos (Nat.lt_irrefl 0)
  | succ fuel ih =>
    rw [formatHexDigits]
    split
    next hn => exact ⟨n, [], hn, rfl⟩
    next =>
      rcases Nat.eq_zero_or_pos fuel with rfl | hpos
      · exact ⟨n % 16, [], Nat.mod_lt n (by decide), rfl⟩
      · obtain ⟨d, rest, hd, heq⟩ := ih (n / 16) hpos
        exact ⟨d, rest ++ [hexDigit (n % 16)], hd, by rw [heq]; rfl⟩

theorem hexDigit_ne_sign {d : Nat} (h : d < 16) : hexDigit d ≠ 43 ∧ hexDigit d ≠ 45 := by
  have hall : ∀ d < 16, hexDigit d ≠ 43 ∧ hexDigit d ≠ 45 := by decide
  exact hall d h

theorem parseInt16_formatInt16 {n : Nat} (h : n < 2 ^ 31) :
    parseInt16 (formatInt16 n) = .ok (n : Int) := by
  have hread : readHexDigits 0 (formatInt16 n) = some n :=
    readHexDigits_formatHexDigits 16 n (Nat.lt_trans h (by decide)) (by decide)
  obtain ⟨d, rest, hd, heq⟩ := formatHexDigits_cons 16 n (by decide)
  have hform : formatInt16 n = hexDigit d :: rest := heq
  rw [hform] at hread ⊢
  obtain ⟨hplus, hminus⟩ := hexDigit_ne_sign hd
  unfold parseInt16
  split
  rename_i neg body hbody
  have hb : neg = false ∧ body = hexDigit d :: rest := by
    split at hbody
    next hsign => exact absurd (List.cons.inj hsign).1 hplus
    next hsign => exact absurd (List.cons.inj hsign).1 hminus
    next => exact ⟨(Prod.mk.inj hbody).1.symm, (Prod.mk.inj hbody).2.symm⟩
  rw [hb.1, hb.2, if_neg (List.cons_ne_nil _ _), hread]
  simp only [Bool.false_eq_true, if_false, if_pos h]

def parseUint (s : Bytes) : Except String UInt64 :=
  if s = [] then .error "invalid syntax"
  else match readDigits 0 s with
    | none => .error "invalid syntax"
    | some n => if n < 2 ^ 64 then .ok (UInt64.ofNat n) else .error "value out of range"

end FabricPeerExt.Lib
