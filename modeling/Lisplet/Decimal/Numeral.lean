import Lisplet.Decimal.Binary64

/-! Reading numerals: decimal digits with a sign and a point. -/
namespace Lisplet.Decimal

def isDigit (c : Char) : Bool := '0' ≤ c && c ≤ '9'

/-- The number that a run of digits denotes. -/
def digitsValue (cs : List Char) : Nat :=
  cs.foldl (fun n c => 10 * n + (c.toNat - '0'.toNat)) 0

/-- The sign and what follows it. -/
def splitSign : List Char → Bool × List Char
  | '-' :: cs => (true, cs)
  | cs => (false, cs)

/-- The number nearest to a numeral with at most one point, unless it is too large. -/
def numeral? (cs : List Char) : Option Binary64 :=
  let (negative, body) := splitSign cs
  let whole := body.takeWhile (· ≠ '.')
  let fraction := (body.dropWhile (· ≠ '.')).drop 1
  if '.' ∈ fraction then none
  else
    Binary64.ofQuotient? negative (digitsValue (whole ++ fraction)) (Nat.pow 10 fraction.length)

end Lisplet.Decimal
