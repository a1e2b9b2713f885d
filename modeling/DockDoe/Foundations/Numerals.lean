import Mathlib

/-! Numerals in a radix: reading digits, and reading back what is written. -/

namespace Numerals

/-- The value of a digit in a radix of at most 36. -/
def digitValue (radix : ℕ) (c : Char) : Option ℕ :=
  let value :=
    if c.isDigit then
      c.toNat - '0'.toNat
    else if c.isLower then
      c.toNat - 'a'.toNat + 10
    else if c.isUpper then
      c.toNat - 'A'.toNat + 10
    else
      radix
  if value < radix then some value else none

/-- A number one digit longer. -/
def push (radix number : ℕ) (c : Char) : Option ℕ :=
  (digitValue radix c).map (number * radix + ·)

/-- The number that digits are read as, the first one the most significant. -/
def number (radix : ℕ) (digits : List Char) : Option ℕ :=
  digits.foldlM (push radix) 0

theorem digitValue_digitChar {radix d : ℕ} (small : radix ≤ 16) (digit : d < radix)
    : digitValue radix d.digitChar = some d := by
  have values
      : ∀ d < 16,
          (if d.digitChar.isDigit then
            d.digitChar.toNat - '0'.toNat
          else if d.digitChar.isLower then
            d.digitChar.toNat - 'a'.toNat + 10
          else if d.digitChar.isUpper then
            d.digitChar.toNat - 'A'.toNat + 10
          else
            radix)
          = d := by
    intro d below
    interval_cases d <;> rfl
  simp only [digitValue, values d (digit.trans_le small), if_pos digit]

theorem number_append (radix : ℕ) (digits : List Char) (c : Char)
    : number radix (digits ++ [c]) = (number radix digits).bind (fun n => push radix n c) := by
  simp [number, List.foldlM_append]

/-- What is written in a radix up to 16 is read back. By strong induction: the last digit is
pushed onto a smaller number.
-/
theorem number_toDigits {radix : ℕ} (proper : 1 < radix) (small : radix ≤ 16) (n : ℕ)
    : number radix (Nat.toDigits radix n) = some n := by
  induction n using Nat.strong_induction_on with
  | h n ih =>
      rw [Nat.toDigits_eq_if proper]
      split
      next digit =>
        simp [number, push, digitValue_digitChar small digit]
      next long =>
        have shorter : n / radix < n := Nat.div_lt_self (by omega) proper
        have last : n % radix < radix := Nat.mod_lt n (by omega)
        rw [number_append, ih _ shorter, Option.bind_some, push, digitValue_digitChar small last,
          Option.map_some, Nat.mul_comm, Nat.div_add_mod]

/-- Two digits, leading zero and all, are read back. -/
theorem number_pair {radix n : ℕ} (small : radix ≤ 16) (fits : n < radix * radix)
    : number radix [(n / radix).digitChar, (n % radix).digitChar] = some n := by
  have positive : 0 < radix := by
    by_contra zero
    simp [Nat.eq_zero_of_not_pos zero] at fits
  have high : n / radix < radix := Nat.div_lt_of_lt_mul fits
  have low : n % radix < radix := Nat.mod_lt n positive
  simp [number, push, digitValue_digitChar small high, digitValue_digitChar small low,
    Nat.div_add_mod']

/-- The value of decimal digits, the first one the most significant. -/
def decimalValue (digits : List Char) : ℕ :=
  digits.foldl (fun n c => n * 10 + (c.toNat - '0'.toNat)) 0

/-- A decimal digit's value is its distance from zero, and nothing else has one. -/
theorem digitValue_ten (c : Char)
    : digitValue 10 c = if c.isDigit then some (c.toNat - '0'.toNat) else none := by
  unfold digitValue
  cases digit : c.isDigit with
  | true =>
      have small : c.toNat - '0'.toNat < 10 := by
        simp only [Char.isDigit, UInt32.le_iff_toNat_le, ge_iff_le, Bool.and_eq_true,
          decide_eq_true_eq] at digit
        change 48 ≤ c.toNat ∧ c.toNat ≤ 57 at digit
        change c.toNat - 48 < 10
        omega
      exact if_pos small
  | false => grind

/-- A decimal number is one of digits only, and read as their value. By induction on the digits
from the back.
-/
theorem number_ten_iff {digits : List Char} {n : ℕ}
    : number 10 digits = some n
      ↔ (∀ c ∈ digits, c.isDigit = true) ∧ decimalValue digits = n := by
  induction digits using List.reverseRecOn generalizing n with
  | nil => simp [number, decimalValue]
  | append_singleton rest c ih =>
      have value
          : decimalValue (rest ++ [c]) = decimalValue rest * 10 + (c.toNat - '0'.toNat) := by
        simp [decimalValue]
      rw [number_append, Option.bind_eq_some_iff, value]
      constructor
      · intro read
        obtain ⟨m, readRest, pushed⟩ := read
        obtain ⟨digits, rfl⟩ := ih.mp readRest
        rw [push, digitValue_ten] at pushed
        split at pushed
        next digit =>
          refine ⟨?_, by simpa using pushed⟩
          intro d member
          rcases List.mem_append.mp member with inRest | last
          · exact digits d inRest
          · rwa [List.mem_singleton.mp last]
        next => cases pushed
      · intro digits
        obtain ⟨isDigit, rfl⟩ := digits
        refine ⟨decimalValue rest, ih.mpr ⟨fun d member => isDigit d (by simp [member]), rfl⟩, ?_⟩
        rw [push, digitValue_ten, if_pos (isDigit c (by simp))]
        rfl

end Numerals
