import Lisplet.Token.Lexer
import Mathlib.Algebra.Order.Field.Basic
import Mathlib.Data.List.Induction
import Mathlib.Data.List.TakeWhile
import Mathlib.Data.Nat.Digits.Defs
import Mathlib.Data.Rat.Cast.Order
import Mathlib.Tactic.Positivity
import Mathlib.Tactic.Ring

/-! Which texts are numerals. The reader works on the integer that the digits around the point make
together; `Numeral` speaks of the number that they denote. -/
namespace Lisplet

namespace Decimal

/-- The digits of a number, the least significant one first. -/
def digitsOf (cs : List Char) : List Nat := (cs.map fun c => c.toNat - '0'.toNat).reverse

/-- Digits with at most one point among them, of a magnitude that does not round to infinity. -/
def Numeral (body : List Char) : Prop :=
  ∃ whole fraction : List Char, (∀ c ∈ whole ++ fraction, isDigit c = true) ∧
    (body = whole ∧ fraction = [] ∨ body = whole ++ '.' :: fraction) ∧
    (Nat.ofDigits 10 (digitsOf whole) : ℚ) +
      Nat.ofDigits 10 (digitsOf fraction) / 10 ^ fraction.length < Binary64.overflow

theorem digitsValue_concat (cs : List Char) (c : Char) :
    digitsValue (cs ++ [c]) = 10 * digitsValue cs + (c.toNat - '0'.toNat) := by
  simp only [digitsValue, List.foldl_append, List.foldl_cons, List.foldl_nil]

theorem digitsValue_eq (cs : List Char) : digitsValue cs = Nat.ofDigits 10 (digitsOf cs) := by
  induction cs using List.reverseRecOn with
  | nil => rfl
  | append_singleton cs c ih =>
    simp [digitsValue_concat, digitsOf, Nat.ofDigits_cons, ih, Nat.add_comm]

theorem digitsValue_append (cs ds : List Char) :
    digitsValue (cs ++ ds) = digitsValue cs * 10 ^ ds.length + digitsValue ds := by
  induction ds using List.reverseRecOn with
  | nil => simp [digitsValue]
  | append_singleton ds d ih =>
    rw [← List.append_assoc, digitsValue_concat, digitsValue_concat, ih, List.length_append,
      List.length_singleton, Nat.pow_succ]
    ring

theorem isDigit_ne_point {c : Char} (h : isDigit c = true) : c ≠ '.' := by
  rintro rfl
  revert h
  decide

theorem isDigit_ne_minus {c : Char} (h : isDigit c = true) : c ≠ '-' := by
  rintro rfl
  revert h
  decide

theorem ofQuotient?_isSome (negative : Bool) (num den : Nat) :
    (Binary64.ofQuotient? negative num den).isSome = true ↔ num < Binary64.overflow * den := by
  unfold Binary64.ofQuotient? Binary64.nearestBits?
  by_cases h : Binary64.overflow * den ≤ num
  · simp [h]
  · by_cases h0 : num = 0 <;> simp [h, h0] <;> omega

/-- The bound that is checked on integers is the one on the number that the digits denote. -/
theorem below_overflow_iff (whole fraction : List Char) :
    digitsValue (whole ++ fraction) < Binary64.overflow * 10 ^ fraction.length ↔
      (Nat.ofDigits 10 (digitsOf whole) : ℚ) +
        Nat.ofDigits 10 (digitsOf fraction) / 10 ^ fraction.length < Binary64.overflow := by
  have pos : (0 : ℚ) < 10 ^ fraction.length := by positivity
  rw [digitsValue_append, digitsValue_eq whole, digitsValue_eq fraction]
  calc _ ↔ ((Nat.ofDigits 10 (digitsOf whole) * 10 ^ fraction.length +
          Nat.ofDigits 10 (digitsOf fraction) : Nat) : ℚ) <
        ((Binary64.overflow * 10 ^ fraction.length : Nat) : ℚ) := Nat.cast_lt.symm
    _ ↔ (Nat.ofDigits 10 (digitsOf whole) * 10 ^ fraction.length +
          Nat.ofDigits 10 (digitsOf fraction) : ℚ) / 10 ^ fraction.length <
        Binary64.overflow := by
      rw [div_lt_iff₀ pos]
      simp only [Nat.cast_add, Nat.cast_mul, Nat.cast_pow, Nat.cast_ofNat, Nat.coe_ofDigits]
    _ ↔ _ := by rw [add_div, mul_div_cancel_right₀ _ pos.ne']

end Decimal

namespace Lexer

section
variable {p : Char → Bool} {body rest : List Char}

/-- A run of characters is as long as it can be if what follows cannot go on with it. -/
theorem takeWhile_run (inside : ∀ c ∈ body, p c = true) (stop : ∀ c ∈ rest.head?, p c = false) :
    (body ++ rest).takeWhile p = body := by
  rw [List.takeWhile_append_of_pos inside]
  cases rest with
  | nil => simp
  | cons c cs => simp [stop c rfl]

theorem dropWhile_run (inside : ∀ c ∈ body, p c = true) (stop : ∀ c ∈ rest.head?, p c = false) :
    (body ++ rest).dropWhile p = rest := by
  rw [List.dropWhile_append_of_pos inside]
  cases rest with
  | nil => rfl
  | cons c cs => simp [stop c rfl]

theorem dropWhile_stop (p : Char → Bool) (cs : List Char) :
    ∀ c ∈ (cs.dropWhile p).head?, p c = false := by
  intro c hc
  have h := List.head?_dropWhile_not p cs
  rw [Option.mem_def.mp hc] at h
  simpa using h

end

/-- The digits in front of the first point, and those behind it. -/
theorem point_cases (body : List Char) :
    (body = body.takeWhile (· ≠ '.') ∧ (body.dropWhile (· ≠ '.')).drop 1 = []) ∨
      body = body.takeWhile (· ≠ '.') ++ '.' :: (body.dropWhile (· ≠ '.')).drop 1 := by
  have whole := List.takeWhile_append_dropWhile (p := (· ≠ '.')) (l := body)
  have stop := dropWhile_stop (· ≠ '.') body
  cases hd : body.dropWhile (· ≠ '.') with
  | nil => rw [hd, List.append_nil] at whole; exact .inl ⟨whole.symm, rfl⟩
  | cons c cs =>
    rw [hd] at whole stop
    obtain rfl : c = '.' := by simpa using stop c rfl
    exact .inr whole.symm

/-- A sign and a text behind it are read as a number if the text is a numeral. -/
theorem numeral?_isSome_iff {negative : Bool} {cs body : List Char}
    (hs : Decimal.splitSign cs = (negative, body)) (inside : ∀ c ∈ body, isNumeral c = true) :
    (Decimal.numeral? cs).isSome = true ↔ Decimal.Numeral body := by
  have digit {c : Char} (hc : c ∈ body) (hp : c ≠ '.') : Decimal.isDigit c = true := by
    simpa [isNumeral, hp] using inside c hc
  simp only [Decimal.numeral?, hs]
  constructor
  · intro h
    split at h
    · cases h
    · rename_i single
      refine ⟨_, _, fun c hc => ?_, point_cases body,
        (Decimal.below_overflow_iff _ _).mp ((Decimal.ofQuotient?_isSome _ _ _).mp h)⟩
      rcases List.mem_append.mp hc with hc | hc
      · exact digit (List.takeWhile_subset _ hc) (by simpa using List.mem_takeWhile_imp hc)
      · exact digit (List.dropWhile_subset _ (List.mem_of_mem_drop hc)) fun e => single (e ▸ hc)
  · rintro ⟨whole, fraction, allDigits, split, bound⟩
    have run : ∀ c ∈ whole, decide (c ≠ '.') = true := fun c hc =>
      decide_eq_true (Decimal.isDigit_ne_point (allDigits c (List.mem_append_left _ hc)))
    have single : '.' ∉ fraction := fun hc =>
      Decimal.isDigit_ne_point (allDigits '.' (List.mem_append_right _ hc)) rfl
    have parts : body.takeWhile (· ≠ '.') = whole ∧
        (body.dropWhile (· ≠ '.')).drop 1 = fraction := by
      rcases split with ⟨rfl, rfl⟩ | rfl
      · rw [List.takeWhile_eq_self_iff.mpr run, List.dropWhile_eq_nil_iff.mpr run]
        exact ⟨rfl, rfl⟩
      · rw [takeWhile_run run (by simp), dropWhile_run run (by simp)]
        exact ⟨rfl, rfl⟩
    rw [parts.1, parts.2, if_neg single]
    exact (Decimal.ofQuotient?_isSome _ _ _).mpr ((Decimal.below_overflow_iff _ _).mpr bound)

end Lexer

end Lisplet
