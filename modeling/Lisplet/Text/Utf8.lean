/-! Reading bytes as UTF-8. Every byte outside a valid encoding stands for one replacement
character, so reading never fails. -/
namespace Lisplet.Text.Utf8

def replacement : Char := '\uFFFD'

/-- The six bits that a continuation byte carries. -/
def tail? (b : UInt8) : Option Nat :=
  if 0x80 ≤ b ∧ b < 0xC0 then some (b.toNat - 0x80) else none

/-- The character with code `n`, unless a shorter encoding exists or no character has the code. -/
def scalar? (least n : Nat) : Option Char :=
  if least ≤ n ∧ n.isValidChar then some (Char.ofNat n) else none

def two? (a : UInt8) : List UInt8 → Option Char
  | b :: _ => do
    let y ← tail? b
    scalar? 0x80 ((a.toNat - 0xC0) * 0x40 + y)
  | _ => none

def three? (a : UInt8) : List UInt8 → Option Char
  | b :: c :: _ => do
    let y ← tail? b
    let z ← tail? c
    scalar? 0x800 (((a.toNat - 0xE0) * 0x40 + y) * 0x40 + z)
  | _ => none

def four? (a : UInt8) : List UInt8 → Option Char
  | b :: c :: d :: _ => do
    let x ← tail? b
    let y ← tail? c
    let z ← tail? d
    scalar? 0x10000 ((((a.toNat - 0xF0) * 0x40 + x) * 0x40 + y) * 0x40 + z)
  | _ => none

/-- The character encoded at the front of `a :: bs`, and how many bytes of `bs` belong to it. -/
def first (a : UInt8) (bs : List UInt8) : Char × Nat :=
  if a < 0x80 then (Char.ofNat a.toNat, 0)
  else if a < 0xC0 then (replacement, 0)
  else if a < 0xE0 then ((two? a bs).map (·, 1)).getD (replacement, 0)
  else if a < 0xF0 then ((three? a bs).map (·, 2)).getD (replacement, 0)
  else if a < 0xF8 then ((four? a bs).map (·, 3)).getD (replacement, 0)
  else (replacement, 0)

/-- Decodes all but the first `n` bytes, which belong to a character already read. -/
def decodeAfter : Nat → List UInt8 → List Char
  | _, [] => []
  | n + 1, _ :: bs => decodeAfter n bs
  | 0, b :: bs =>
    let (c, n) := first b bs
    c :: decodeAfter n bs

def decode (bs : List UInt8) : List Char := decodeAfter 0 bs

/-- Decoded text as a string. -/
def text (bs : List UInt8) : String := String.ofList (decode bs)

def bytes (s : String) : List UInt8 := s.toUTF8.toList

end Lisplet.Text.Utf8
