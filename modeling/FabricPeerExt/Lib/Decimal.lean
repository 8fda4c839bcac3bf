/-
FabricPeerExt.Lib.Decimal — decimal number literals, as JSON has them.
-/
import FabricPeerExt.Lib.ByteOrder
import Mathlib.Data.Nat.Digits.Lemmas
import Mathlib.Data.Fin.Basic

namespace FabricPeerExt.Lib

/-! ## Digits -/

abbrev Digit := Fin 10

def zeroDigit : Digit := 0

def digitByte (d : Digit) : UInt8 := UInt8.ofNat (48 + d.val)

def byteDigit (b : UInt8) : Option Digit :=
  if 48 ≤ b ∧ b ≤ 57 then some (Fin.ofNat 10 (b.toNat - 48)) else none

theorem byteDigit_digitByte : ∀ d : Digit, byteDigit (digitByte d) = some d := by decide

theorem digitByte_ne_zero : ∀ d : Digit, d ≠ 0 → digitByte d ≠ 48 := by decide

theorem digitByte_ne_sign : ∀ d : Digit, digitByte d ≠ 43 ∧ digitByte d ≠ 45 := by decide

def spanDigits : Bytes → List Digit × Bytes
  | [] => ([], [])
  | b :: s =>
    match byteDigit b with
    | none => ([], b :: s)
    | some d => (d :: (spanDigits s).1, (spanDigits s).2)

def EndsDigits (r : Bytes) : Prop := ∀ b ∈ r.head?, byteDigit b = none

variable {r : Bytes}

theorem spanDigits_append (hr : EndsDigits r) : ∀ ds : List Digit,
    spanDigits (ds.map digitByte ++ r) = (ds, r)
  | [] => by
    cases r with
    | nil => rfl
    | cons b s =>
      rw [List.map_nil, List.nil_append, spanDigits, hr b rfl]
  | d :: ds => by
    rw [List.map_cons, List.cons_append, spanDigits, byteDigit_digitByte,
      spanDigits_append hr ds]

def natOf (ds : List Digit) : Nat := Nat.ofDigits 10 (ds.reverse.map Fin.val)

def digitsOf (n : Nat) : List Digit :=
  if n = 0 then [0] else (Nat.digits 10 n).reverse.map (Fin.ofNat 10)

theorem digitsOf_pos {n : Nat} (h : n ≠ 0) :
    digitsOf n = (Nat.digits 10 n).reverse.map (Fin.ofNat 10) := if_neg h

theorem natOf_digitsOf (n : Nat) : natOf (digitsOf n) = n := by
  by_cases h : n = 0
  · subst h
    rfl
  · have hmap : ((Nat.digits 10 n).map (Fin.ofNat 10)).map Fin.val = Nat.digits 10 n := by
      rw [List.map_map]
      refine (List.map_congr_left fun d hd => ?_).trans (List.map_id _)
      exact Nat.mod_eq_of_lt (Nat.digits_lt_base (by decide) hd)
    rw [digitsOf_pos h, natOf, ← List.map_reverse, List.reverse_reverse, hmap, Nat.ofDigits_digits]

/-- The digits of a number that is not zero do not begin with a zero. -/
theorem exists_digitsOf_cons {n : Nat} (h : n ≠ 0) : ∃ d ds, digitsOf n = d :: ds ∧ d ≠ 0 := by
  have hne : Nat.digits 10 n ≠ [] := Nat.digits_ne_nil_iff_ne_zero.mpr h
  have hlast := Nat.getLast_digit_ne_zero 10 h
  have hlt : (Nat.digits 10 n).getLast hne < 10 :=
    Nat.digits_lt_base (by decide) (List.getLast_mem hne)
  rw [digitsOf_pos h, ← List.dropLast_append_getLast hne, List.reverse_append, List.map_append]
  refine ⟨_, _, rfl, fun heq => hlast ?_⟩
  have hval := congrArg Fin.val heq
  rwa [Fin.val_ofNat, Nat.mod_eq_of_lt hlt] at hval

theorem exists_digitsOf (n : Nat) : ∃ d ds, digitsOf n = d :: ds := by
  by_cases h : n = 0
  · exact ⟨0, [], if_pos h⟩
  · obtain ⟨d, ds, hds, -⟩ := exists_digitsOf_cons h
    exact ⟨d, ds, hds⟩

/-! ## Literals -/

/-- The exponent of a literal: its letter, its sign if there is one (`true` is a minus), and
its digits. -/
structure Exponent where
  upper : Bool
  sign : Option Bool
  first : Digit
  rest : List Digit
  deriving DecidableEq, Repr

structure Number where
  neg : Bool
  int : Nat
  frac : List Digit
  exp : Option Exponent
  deriving DecidableEq, Repr

namespace Exponent

def value (e : Exponent) : Int :=
  if e.sign = some true then -(natOf (e.first :: e.rest) : Int) else natOf (e.first :: e.rest)

def renderSign : Option Bool → Bytes
  | none => []
  | some false => [43]
  | some true => [45]

def render (e : Exponent) : Bytes :=
  (if e.upper then 69 else 101) :: (renderSign e.sign ++ (e.first :: e.rest).map digitByte)

end Exponent

namespace Number

def mantissa (n : Number) : Nat := natOf (digitsOf n.int ++ n.frac)

def scale (n : Number) : Int := (n.exp.map Exponent.value).getD 0 - n.frac.length

def value (n : Number) : Rat :=
  let m : Int := if n.neg then -(n.mantissa : Int) else n.mantissa
  if 0 ≤ n.scale then ((m * 10 ^ n.scale.toNat : Int) : Rat) else mkRat m (10 ^ n.scale.natAbs)

def renderFrac : List Digit → Bytes
  | [] => []
  | d :: ds => 46 :: (d :: ds).map digitByte

def render (n : Number) : Bytes :=
  (if n.neg then [45] else []) ++ ((digitsOf n.int).map digitByte ++
    (renderFrac n.frac ++ ((n.exp.map Exponent.render).getD [])))

def ofInt (i : Int) : Number := ⟨i < 0, i.natAbs, [], none⟩

end Number

/-! ## Reading -/

def parseSign : Bytes → Bool × Bytes
  | 45 :: s => (true, s)
  | s => (false, s)

def parseNat : Bytes → Option (Nat × Bytes)
  | 48 :: s => some (0, s)
  | s =>
    match spanDigits s with
    | ([], _) => none
    | (d :: ds, r) => some (natOf (d :: ds), r)

def parseFrac : Bytes → Option (List Digit × Bytes)
  | 46 :: s =>
    match spanDigits s with
    | ([], _) => none
    | (d :: ds, r) => some (d :: ds, r)
  | s => some ([], s)

def parseExpSign : Bytes → Option Bool × Bytes
  | 43 :: s => (some false, s)
  | 45 :: s => (some true, s)
  | s => (none, s)

def parseExpDigits (upper : Bool) (s : Bytes) : Option (Option Exponent × Bytes) :=
  let (sign, s) := parseExpSign s
  match spanDigits s with
  | ([], _) => none
  | (d :: ds, r) => some (some ⟨upper, sign, d, ds⟩, r)

def parseExp : Bytes → Option (Option Exponent × Bytes)
  | 101 :: s => parseExpDigits false s
  | 69 :: s => parseExpDigits true s
  | s => some (none, s)

def parseNumber (s : Bytes) : Option (Number × Bytes) :=
  let (neg, s) := parseSign s
  match parseNat s with
  | none => none
  | some (int, s) =>
    match parseFrac s with
    | none => none
    | some (frac, s) =>
      match parseExp s with
      | none => none
      | some (exp, s) => some (⟨neg, int, frac, exp⟩, s)

def EndsNumber (r : Bytes) : Prop :=
  ∀ b ∈ r.head?, byteDigit b = none ∧ b ≠ 46 ∧ b ≠ 101 ∧ b ≠ 69

theorem EndsNumber.endsDigits (h : EndsNumber r) : EndsDigits r :=
  fun b hb => (h b hb).1

theorem endsDigits_cons {b : UInt8} (h : byteDigit b = none) (r : Bytes) : EndsDigits (b :: r) := by
  intro c hc
  obtain rfl := Option.some.inj hc
  exact h

theorem parseNat_append (n : Nat) (hr : EndsDigits r) :
    parseNat ((digitsOf n).map digitByte ++ r) = some (n, r) := by
  by_cases h : n = 0
  · subst h
    rfl
  · obtain ⟨d, ds, hds, hd⟩ := exists_digitsOf_cons h
    have hspan := spanDigits_append hr (digitsOf n)
    have hnat := natOf_digitsOf n
    rw [hds] at hspan hnat ⊢
    rw [parseNat, hspan]
    · exact congrArg (fun m => some (m, r)) hnat
    · intro s hs
      exact digitByte_ne_zero d hd (List.cons.inj hs).1

theorem parseFrac_append (hr : ∀ b ∈ r.head?, byteDigit b = none ∧ b ≠ 46) :
    ∀ frac : List Digit, parseFrac (Number.renderFrac frac ++ r) = some (frac, r)
  | [] => by
    rw [Number.renderFrac, List.nil_append, parseFrac]
    rintro s rfl
    exact (hr 46 rfl).2 rfl
  | d :: ds => by
    rw [Number.renderFrac, List.cons_append, parseFrac,
      spanDigits_append (fun b hb => (hr b hb).1)]

theorem parseExpSign_append (sign : Option Bool) (d : Digit) (s : Bytes) :
    parseExpSign (Exponent.renderSign sign ++ digitByte d :: s) = (sign, digitByte d :: s) := by
  obtain ⟨hplus, hminus⟩ := digitByte_ne_sign d
  cases sign with
  | none =>
    rw [Exponent.renderSign, List.nil_append, parseExpSign]
    · exact fun _ hs => hplus (List.cons.inj hs).1
    · exact fun _ hs => hminus (List.cons.inj hs).1
  | some b =>
    cases b with
    | false => rfl
    | true => rfl

theorem parseExp_append (hr : EndsNumber r) (exp : Option Exponent) :
    parseExp ((exp.map Exponent.render).getD [] ++ r) = some (exp, r) := by
  cases exp with
  | none =>
    rw [Option.map_none, Option.getD_none, List.nil_append, parseExp]
    · rintro s rfl
      exact (hr 101 rfl).2.2.1 rfl
    · rintro s rfl
      exact (hr 69 rfl).2.2.2 rfl
  | some e =>
    have hdigits : ∀ upper, parseExpDigits upper (Exponent.renderSign e.sign ++
        (e.first :: e.rest).map digitByte ++ r) =
          some (some ⟨upper, e.sign, e.first, e.rest⟩, r) := by
      intro upper
      rw [List.append_assoc, List.map_cons, List.cons_append, parseExpDigits, parseExpSign_append]
      dsimp only
      rw [← List.cons_append, ← List.map_cons, spanDigits_append hr.endsDigits]
    obtain ⟨upper, sign, first, rest⟩ := e
    cases upper with
    | true => exact hdigits true
    | false => exact hdigits false

/-- A literal is read back, if what follows cannot continue it. -/
theorem parseNumber_render (n : Number) (hr : EndsNumber r) :
    parseNumber (n.render ++ r) = some (n, r) := by
  obtain ⟨neg, int, frac, exp⟩ := n
  have hexp : ∀ b ∈ ((exp.map Exponent.render).getD [] ++ r).head?,
      byteDigit b = none ∧ b ≠ 46 := by
    cases exp with
    | none => exact fun b hb => ⟨(hr b hb).1, (hr b hb).2.1⟩
    | some e =>
      intro b hb
      obtain rfl := Option.some.inj hb
      cases e.upper <;> decide
  have hfrac : EndsDigits (Number.renderFrac frac ++ ((exp.map Exponent.render).getD [] ++ r)) := by
    cases frac with
    | nil => exact fun b hb => (hexp b hb).1
    | cons d ds => exact endsDigits_cons (by decide) _
  have hsign : parseSign ((if neg then [45] else []) ++ ((digitsOf int).map digitByte ++
      (Number.renderFrac frac ++ ((exp.map Exponent.render).getD [] ++ r)))) =
      (neg, (digitsOf int).map digitByte ++
        (Number.renderFrac frac ++ ((exp.map Exponent.render).getD [] ++ r))) := by
    cases neg with
    | true => rfl
    | false =>
      obtain ⟨d, ds, hds⟩ := exists_digitsOf int
      rw [hds, List.map_cons, List.cons_append]
      rw [if_neg Bool.false_ne_true, List.nil_append, parseSign]
      exact fun _ hs => (digitByte_ne_sign d).2 (List.cons.inj hs).1
  rw [Number.render, List.append_assoc, List.append_assoc, List.append_assoc, parseNumber, hsign]
  simp only [parseNat_append int hfrac, parseFrac_append hexp, parseExp_append hr]

end FabricPeerExt.Lib
