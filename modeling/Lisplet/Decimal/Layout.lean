import Lisplet.Decimal.Shortest

/-! The text of double-precision numbers: the shortest digits that read back, positional for
moderate magnitudes and with an exponent for the others. -/
namespace Lisplet.Decimal

structure Layout where
  /-- The least exponent that is written positionally. -/
  least : Int
  /-- The first exponent from which on positional writing ends. -/
  limit : Int
  exponentWidth : Nat
  nan : String
  infinity : String
  negativeInfinity : String

/-- Positional from 0.0001 up to a million, and at least two digits in an exponent. -/
def Layout.plain : Layout := ⟨-4, 6, 2, "NaN", "+Inf", "-Inf"⟩

def padLeft (width : Nat) (cs : List Char) : List Char :=
  List.replicate (width - cs.length) '0' ++ cs

/-- Digits `d₁d₂…` as `d₁.d₂…e±x`. -/
def Layout.scientific (l : Layout) (digits : List Char) (e : Int) : List Char :=
  let mantissa := match digits with
    | [] => []
    | [d] => [d]
    | d :: ds => d :: '.' :: ds
  let sign := if e < 0 then '-' else '+'
  mantissa ++ 'e' :: sign :: padLeft l.exponentWidth (Nat.toDigits 10 e.natAbs)

/-- Digits `d₁d₂…` with the point put where exponent `e` says. -/
def positional (digits : List Char) (e : Int) : List Char :=
  if e < 0 then '0' :: '.' :: List.replicate (e.natAbs - 1) '0' ++ digits
  else
    let whole := digits.take (e.toNat + 1)
    let fraction := digits.drop (e.toNat + 1)
    let whole := whole ++ List.replicate (e.toNat + 1 - whole.length) '0'
    if fraction.isEmpty then whole else whole ++ '.' :: fraction

/-- Digits without the zeros at their end. -/
def significant (n : Nat) : List Char :=
  ((Nat.toDigits 10 n).reverse.dropWhile (· = '0')).reverse

def Layout.magnitude (l : Layout) (m : Nat) (q : Int) : List Char :=
  if m = 0 then ['0']
  else
    let d := shortest m q
    let digits := significant d.value
    if l.least ≤ d.exponent ∧ d.exponent < l.limit then positional digits d.exponent
    else l.scientific digits d.exponent

def Layout.text (l : Layout) (x : Binary64) : String :=
  match x.meaning with
  | .nan => l.nan
  | .infinite negative => if negative then l.negativeInfinity else l.infinity
  | .finite negative m q =>
    String.ofList (if negative then '-' :: l.magnitude m q else l.magnitude m q)

def Binary64.text (x : Binary64) : String := Layout.plain.text x

end Lisplet.Decimal
