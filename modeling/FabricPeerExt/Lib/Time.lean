/-
FabricPeerExt.Lib.Time — instants of time as a 64-bit program sees them: `unixNano` wraps around
before 1677 and after 2262.
-/
import Mathlib.Algebra.Order.Ring.Int

namespace FabricPeerExt.Lib

def toInt64 (n : Int) : Int := n.bmod (2 ^ 64)

theorem toInt64_eq {n : Int} (hlow : -2 ^ 63 ≤ n) (hhigh : n < 2 ^ 63) : toInt64 n = n := by
  rw [toInt64, Int.bmod_def]
  split
  all_goals omega

/-- Nanoseconds since the start of 1970. -/
structure Time where
  nanos : Int
  deriving DecidableEq, Repr

namespace Time

/-- The zero time: the start of year 1. -/
def zero : Time := ⟨-62135596800000000000⟩

def isZero (t : Time) : Bool := t = zero

def unixNano (t : Time) : Int := toInt64 t.nanos

def unix (seconds : Int) : Time := ⟨seconds * 1000000000⟩

def add (t : Time) (d : Int) : Time := ⟨t.nanos + d⟩

/-- The duration from `u` to `t`; one that does not fit 64 bits becomes the nearest that
does. -/
def sub (t u : Time) : Int := max (-2 ^ 63) (min (2 ^ 63 - 1) (t.nanos - u.nanos))

theorem sub_nonpos {t u : Time} : t.sub u ≤ 0 ↔ t.nanos ≤ u.nanos := by
  rw [sub]
  omega

/-- The instants from September 2001 until 64 bits are used up: their nanoseconds have
nineteen digits. -/
def NineteenDigits (t : Time) : Prop := 10 ^ 18 ≤ t.nanos ∧ t.nanos < 2 ^ 63

instance decidableNineteenDigits (t : Time) : Decidable t.NineteenDigits :=
  inferInstanceAs (Decidable (_ ∧ _))

theorem NineteenDigits.unixNano {t : Time} (h : t.NineteenDigits) : t.unixNano = t.nanos := by
  obtain ⟨hlow, hhigh⟩ := h
  exact toInt64_eq (by omega) hhigh

end Time

end FabricPeerExt.Lib
