/-! Double-precision numbers by their bits, and rounding of exact quotients to them. -/
namespace Lisplet.Decimal

structure Binary64 where
  bits : UInt64
  deriving DecidableEq, Repr

namespace Binary64

/-- What the bits stand for. A finite number has magnitude `m * 2 ^ q`. -/
inductive Meaning where
  | nan
  | infinite (negative : Bool)
  | finite (negative : Bool) (m : Nat) (q : Int)
  deriving DecidableEq, Repr

def signBit : Nat := Nat.pow 2 63

def meaning (x : Binary64) : Meaning :=
  let n := x.bits.toNat
  let negative := decide (signBit ≤ n)
  let exponent : Nat := n / Nat.pow 2 52 % Nat.pow 2 11
  let fraction := n % Nat.pow 2 52
  if exponent = 0x7FF then
    if fraction = 0 then .infinite negative else .nan
  else if exponent = 0 then .finite negative fraction (-1074)
  else .finite negative (Nat.pow 2 52 + fraction) ((exponent : Int) - 1075)

/-- `num / den` to the nearest integer, a half to the even one. -/
def roundDiv (num den : Nat) : Nat :=
  let n := num / den
  let twice := 2 * (num % den)
  if twice < den ∨ twice = den ∧ n % 2 = 0 then n else n + 1

/-- From here on a magnitude rounds to infinity: half a unit above the largest finite number. -/
def overflow : Nat := Nat.pow 2 1024 - Nat.pow 2 970

/-- The exponent `q` of the last bit kept of `num / den`, which is positive. -/
def lastExponent (num den : Nat) : Int :=
  let q : Int := num.log2 - den.log2 - 53
  let whole := if 0 ≤ q then num / (den * Nat.pow 2 q.toNat) else num * Nat.pow 2 (-q).toNat / den
  max (-1074) (if whole < Nat.pow 2 53 then q else q + 1)

/-- The bits of the nonnegative number nearest to `num / den`, if it is below `overflow`. The bit
above the fraction carries into the exponent, so one sum covers small and normal numbers. -/
def nearestBits? (num den : Nat) : Option Nat :=
  if overflow * den ≤ num then none
  else if num = 0 then some 0
  else
    let q := lastExponent num den
    let m := if 0 ≤ q then roundDiv num (den * Nat.pow 2 q.toNat)
      else roundDiv (num * Nat.pow 2 (-q).toNat) den
    some ((q + 1074).toNat * Nat.pow 2 52 + m)

/-- The nearest number to `± num / den`, if there is a finite one. -/
def ofQuotient? (negative : Bool) (num den : Nat) : Option Binary64 :=
  (nearestBits? num den).map fun n => ⟨UInt64.ofNat (if negative then n + signBit else n)⟩

end Binary64

end Lisplet.Decimal
