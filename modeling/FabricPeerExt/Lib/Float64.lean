/-
FabricPeerExt.Lib.Float64 — finite double-precision numbers and their decimal literals:
`parseFloat` rounds to the nearest one, `literal` is the shortest decimal that is read as the
number.
-/
import FabricPeerExt.Lib.Decimal
import Mathlib.Algebra.Order.Ring.Int

namespace FabricPeerExt.Lib

/-- A finite number: `mant * 2 ^ exp`, negated if `neg`. Zero and the numbers below the normal
range have the least exponent. -/
structure Float64 where
  neg : Bool
  mant : Nat
  exp : Int
  deriving DecidableEq, Repr

/-- `n / d` to the nearest integer, a half to the even one. -/
def roundDiv (n d : Nat) : Nat :=
  let r := 2 * (n % d)
  if r < d then n / d
  else if d < r then n / d + 1
  else if n / d % 2 = 0 then n / d else n / d + 1

def scaleBy (b n d : Nat) (k : Int) : Nat × Nat :=
  if 0 ≤ k then (n * b ^ k.toNat, d) else (n, d * b ^ k.natAbs)

namespace Float64

def highBit (n d : Nat) : Int :=
  let k : Int := n.log2 - d.log2
  let (n', d') := scaleBy 2 n d (-k)
  if d' ≤ n' then k else k - 1

def ofRatio (neg : Bool) (n d : Nat) : Option Float64 :=
  if n = 0 then some ⟨neg, 0, -1074⟩ else
    let exp := max (highBit n d - 52) (-1074)
    let (n', d') := scaleBy 2 n d (-exp)
    let mant := roundDiv n' d'
    let (mant, exp) := if mant = 2 ^ 53 then (2 ^ 52, exp + 1) else (mant, exp)
    if 971 < exp then none else some ⟨neg, mant, exp⟩

def ofDecimal (neg : Bool) (m : Nat) (k : Int) : Option Float64 :=
  let (n, d) := scaleBy 10 m 1 k
  ofRatio neg n d

def ratio (f : Float64) : Nat × Nat := scaleBy 2 f.mant 1 f.exp

end Float64

def parseFloat (n : Number) : Option Float64 := Float64.ofDecimal n.neg n.mantissa n.scale

def highDigit (n d : Nat) : Int :=
  if d ≤ n then (Nat.digits 10 (n / d)).length - 1
  else -((Nat.digits 10 ((d + n - 1) / n - 1)).length : Int)

namespace Float64

/-- The decimal with the given number of digits that is read as the number, if there is one:
the two next to it are tried. -/
def decimalWith (f : Float64) (digits : Nat) : Option (Nat × Int) :=
  let (n, d) := f.ratio
  let k := highDigit n d + 1 - digits
  let (n', d') := scaleBy 10 n d (-k)
  let low := n' / d'
  let lowOk := ofDecimal f.neg low k = some f
  let highOk := ofDecimal f.neg (low + 1) k = some f
  let found := if lowOk ∧ highOk then some (roundDiv n' d') else if lowOk then some low
    else if highOk then some (low + 1) else none
  found.map fun m => if m = 10 ^ digits then (1, k + digits) else (m, k)

def exactDecimal (f : Float64) : Nat × Int :=
  if 0 ≤ f.exp then (f.mant * 2 ^ f.exp.toNat, 0) else (f.mant * 5 ^ f.exp.natAbs, f.exp)

def shortest (f : Float64) : Nat × Int :=
  ((List.range 17).findSome? fun i => f.decimalWith (i + 1)).getD f.exactDecimal

def plainLiteral (neg : Bool) (ds : List Digit) (k : Int) : Number :=
  let point := ds.length + k
  if 0 ≤ k then ⟨neg, natOf ds * 10 ^ k.toNat, [], none⟩
  else if 0 < point then ⟨neg, natOf (ds.take point.toNat), ds.drop point.toNat, none⟩
  else ⟨neg, 0, List.replicate point.natAbs zeroDigit ++ ds, none⟩

def exponentLiteral (neg : Bool) (ds : List Digit) (k : Int) : Number :=
  let exp := ds.length + k - 1
  let expDigits := digitsOf exp.natAbs
  ⟨neg, (ds.headD zeroDigit).val, ds.tail,
    some ⟨false, some (exp < 0), expDigits.headD zeroDigit, expDigits.tail⟩⟩

def literal (f : Float64) : Number :=
  if f.mant = 0 then ⟨f.neg, 0, [], none⟩ else
    let (m, k) := f.shortest
    let ds := digitsOf m
    let exp := ds.length + k - 1
    if exp < -6 ∨ 21 ≤ exp then exponentLiteral f.neg ds k else plainLiteral f.neg ds k

end Float64

end FabricPeerExt.Lib
