import Mathlib.Algebra.Ring.Nat
import Mathlib.Data.Int.Notation
import Mathlib.Data.Nat.Notation

/-!
# Doubles as Bits

An IEEE 754 double is its 64 bits: a sign, eleven bits of exponent and 52 of fraction.
-/

namespace Doubles

def isFinite (d : UInt64) : Bool := d.toNat / 2 ^ 52 % 2 ^ 11 ≠ 2047

/-- The quiet NaN without a payload. -/
def NAN : UInt64 := 0x7FF8000000000000

def INFINITY : UInt64 := 0x7FF0000000000000

def NEGATIVE_INFINITY : UInt64 := 0xFFF0000000000000

def NEGATIVE_ZERO : UInt64 := 0x8000000000000000

/-- Whether a double is no number. -/
def isNaN (d : UInt64) : Bool := d.toNat / 2 ^ 52 % 2 ^ 11 = 2047 ∧ d.toNat % 2 ^ 52 ≠ 0

/-- Whether a double is a zero of either sign. -/
def isZero (d : UInt64) : Bool := d.toNat % 2 ^ 63 = 0

/-- A finite double without its fraction. -/
def truncate (d : UInt64) : ℤ :=
  let exponent := d.toNat / 2 ^ 52 % 2 ^ 11
  let significand := 2 ^ 52 + d.toNat % 2 ^ 52
  -- below the exponent of one there is nothing before the point
  let magnitude : ℕ :=
    if exponent < 1023 then 0
    else if exponent < 1075 then significand / 2 ^ (1075 - exponent)
    else significand * 2 ^ (exponent - 1075)
  if d.toNat < 2 ^ 63 then magnitude else -magnitude

example : truncate 0xC004000000000000 = -2 := by decide

/-- The 53 leading bits of a number of `e + 1` bits, rounded to the nearest, a tie to the even. -/
def significand (n e : ℕ) : ℕ :=
  if e ≤ 52 then n * 2 ^ (52 - e)
  else
    let unit := 2 ^ (e - 52)
    if unit < n % unit * 2 ∨ (n % unit * 2 = unit ∧ n / unit % 2 = 1) then n / unit + 1
    else n / unit

/-- The double nearest to an integer, if it is in range. -/
def ofInt (z : ℤ) : Option UInt64 :=
  if z = 0 then some 0
  else
    let e := Nat.log2 z.natAbs
    -- a significand that was rounded up to `2 ^ 53` carries into the exponent
    let bits := (e + 1022) * 2 ^ 52 + significand z.natAbs e
    if 2047 * 2 ^ 52 ≤ bits then none
    else some (UInt64.ofNat (bits + if z < 0 then 2 ^ 63 else 0))

example : ofInt 3 = some 0x4008000000000000 := by decide

example : ofInt (-(2 ^ 53 + 1)) = ofInt (-(2 ^ 53)) := by decide

end Doubles
