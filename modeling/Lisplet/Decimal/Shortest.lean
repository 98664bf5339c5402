import Lisplet.Decimal.Binary64

/-! The shortest decimal digits that read back to a given double-precision number. -/
namespace Lisplet.Decimal

/-- The decimal `d₁.d₂d₃… * 10 ^ exponent`, its digits given as one number. -/
structure Digits where
  value : Nat
  exponent : Int
  deriving DecidableEq, Repr

/-- A positive number `mid / den` with the bounds of the reals that round to it. -/
structure Rounding where
  low : Nat
  mid : Nat
  high : Nat
  den : Nat
  /-- The bounds themselves round to it. -/
  closed : Bool

/-- The reals that round to `m * 2 ^ q`. The gap below a power of two is half as wide, except
among the smallest numbers. -/
def Rounding.of (m : Nat) (q : Int) : Rounding :=
  let below := if m = Nat.pow 2 52 ∧ q ≠ -1074 then 1 else 2
  let scale := if 2 ≤ q then Nat.pow 2 (q - 2).toNat else 1
  { low := (4 * m - below) * scale
    mid := 4 * m * scale
    high := (4 * m + 2) * scale
    den := if 2 ≤ q then 1 else Nat.pow 2 (2 - q).toNat
    closed := m % 2 = 0 }

/-- The decimal exponent of the first digit of `num / den`. -/
def leading (num den : Nat) : Int :=
  if den ≤ num then (Nat.toDigits 10 (num / den)).length - 1
  else
    let k := (Nat.toDigits 10 (den / num)).length
    if den = num * Nat.pow 10 (k - 1) then 1 - k else -k

/-- Both sides of a comparison with `c * 10 ^ (-s)`, cleared of fractions. -/
def scaled (den c : Nat) (s : Int) (bound : Nat) : Nat × Nat :=
  if 0 ≤ s then (bound * Nat.pow 10 s.toNat, c * den)
  else (bound, c * den * Nat.pow 10 (-s).toNat)

/-- Whether `c * 10 ^ (-s)` rounds to the number. -/
def Rounding.holds (r : Rounding) (c : Nat) (s : Int) : Bool :=
  let (low, point) := scaled r.den c s r.low
  let (high, _) := scaled r.den c s r.high
  if r.closed then low ≤ point && point ≤ high else low < point && point < high

/-- The nearest decimal with `n` digits that rounds to the number, if any does. -/
def Rounding.withDigits (r : Rounding) (e : Int) (n : Nat) : Option Nat :=
  let s : Int := n - 1 - e
  let floor := if 0 ≤ s then r.mid * Nat.pow 10 s.toNat / r.den
    else r.mid / (r.den * Nat.pow 10 (-s).toNat)
  match r.holds floor s, r.holds (floor + 1) s with
  | true, true =>
    let (mid, point) := scaled r.den floor s r.mid
    let (_, next) := scaled r.den (floor + 1) s r.mid
    if mid - point < next - mid ∨ mid - point = next - mid ∧ floor % 2 = 0 then some floor
    else some (floor + 1)
  | true, false => some floor
  | false, true => some (floor + 1)
  | false, false => none

/-- The fewest digits that read back to the positive number `m * 2 ^ q`. Seventeen are always
enough. -/
def shortest (m : Nat) (q : Int) : Digits :=
  let r := Rounding.of m q
  let e := leading r.mid r.den
  match (List.range 17).findSome? fun n => (r.withDigits e (n + 1)).map (n, ·) with
  | some (n, c) => if c = Nat.pow 10 (n + 1) then ⟨1, e + 1⟩ else ⟨c, e⟩
  | none => ⟨0, 0⟩

end Lisplet.Decimal
