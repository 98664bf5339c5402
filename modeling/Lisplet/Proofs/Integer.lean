import Lisplet.Eval
import Lisplet.Proofs.Numeral

/-! Which texts are integers: a sign or none and one or more digits, of a number that 32 bits
hold. -/
namespace Lisplet

namespace Decimal

/-- The number that digits spell, with a sign in front of them or none. -/
def signedValue : List Char → Int
  | '+' :: digits => (Nat.ofDigits 10 (digitsOf digits) : Nat)
  | '-' :: digits => -(Nat.ofDigits 10 (digitsOf digits) : Nat)
  | digits => (Nat.ofDigits 10 (digitsOf digits) : Nat)

/-- A sign or none, and one or more digits. -/
def IsInteger (cs : List Char) : Prop :=
  ∃ digits : List Char, digits ≠ [] ∧ (∀ c ∈ digits, isDigit c = true) ∧
    (cs = digits ∨ cs = '+' :: digits ∨ cs = '-' :: digits)

/-- A sign is no digit, so it is told from what stands behind it. -/
theorem isInteger_cons {sign : Char} (h : sign = '+' ∨ sign = '-') {digits : List Char} :
    IsInteger (sign :: digits) ↔ digits ≠ [] ∧ ∀ c ∈ digits, isDigit c = true := by
  constructor
  · rintro ⟨ds, some, all, rfl | same | same⟩
    · have digit := all sign List.mem_cons_self
      rcases h with rfl | rfl <;> exact absurd digit (by decide)
    · cases same
      exact ⟨some, all⟩
    · cases same
      exact ⟨some, all⟩
  · rintro ⟨some, all⟩
    refine ⟨digits, some, all, .inr ?_⟩
    rcases h with rfl | rfl
    · exact .inl rfl
    · exact .inr rfl

theorem isInteger_of_noSign {cs : List Char} (plus : ∀ digits, cs ≠ '+' :: digits)
    (minus : ∀ digits, cs ≠ '-' :: digits) :
    IsInteger cs ↔ cs ≠ [] ∧ ∀ c ∈ cs, isDigit c = true := by
  constructor
  · rintro ⟨ds, some, all, rfl | same | same⟩
    · exact ⟨some, all⟩
    · exact absurd same (plus ds)
    · exact absurd same (minus ds)
  · rintro ⟨some, all⟩
    exact ⟨cs, some, all, .inl rfl⟩

/-- Reading digits for a number: there have to be some, and the number has to fit. -/
theorem checked_eq_some_iff {digits : List Char} {z : Int} {n : Int32} :
    (if digits.isEmpty || !digits.all isDigit then none
      else if Int32.minValue.toInt ≤ z ∧ z ≤ Int32.maxValue.toInt then some (Int32.ofInt z)
      else none) = some n ↔
      (digits ≠ [] ∧ ∀ c ∈ digits, isDigit c = true) ∧ z = n.toInt := by
  have spelled : (digits.isEmpty || !digits.all isDigit) = false ↔
      digits ≠ [] ∧ ∀ c ∈ digits, isDigit c = true := by
    simp
  rw [← spelled]
  cases digits.isEmpty || !digits.all isDigit with
  | true => simp
  | false =>
    simp only [Bool.false_eq_true, if_false, true_and]
    constructor
    · intro h
      split at h
      · rename_i range
        cases h
        exact (Int32.toInt_ofInt_of_le range.1 (Int.lt_add_one_of_le range.2)).symm
      · cases h
    · rintro rfl
      rw [if_pos ⟨n.minValue_le_toInt, n.toInt_le⟩, Int32.ofInt_toInt]

end Decimal

/-- The texts that are read as integers, and as which. -/
theorem integer?_eq_some_iff {text : String} {n : Int32} :
    integer? text = some n ↔
      Decimal.IsInteger text.toList ∧ Decimal.signedValue text.toList = n.toInt := by
  unfold integer?
  generalize text.toList = cs
  split
  rename_i sign
  split at sign <;> cases sign
  · rw [Decimal.isInteger_cons (.inl rfl), Decimal.signedValue, ← Decimal.digitsValue_eq]
    exact Decimal.checked_eq_some_iff
  · rw [Decimal.isInteger_cons (.inr rfl), Decimal.signedValue, ← Decimal.digitsValue_eq]
    exact Decimal.checked_eq_some_iff
  · rename_i plus minus
    rw [Decimal.isInteger_of_noSign plus minus, Decimal.signedValue, ← Decimal.digitsValue_eq]
    · exact Decimal.checked_eq_some_iff
    · exact plus
    · exact minus

end Lisplet
