import Mathlib.Data.List.Lex
import Mathlib.Data.String.Basic

/-!
# Zero-padded decimal numbers

Numbers written with a fixed number of decimal digits are ordered as texts as they are as
numbers.
-/

namespace MatchX.Support

/-- A number in decimal digits, padded with zeros on the left. -/
def padded (width number : Nat) : List Char := (Nat.toDigits 10 number).leftpad width '0'

/-- Leading zeros do not change the number. -/
theorem ofDigitChars_padded (width number : Nat) :
    Nat.ofDigitChars 10 (padded width number) 0 = number := by
  rw [padded, List.leftpad, Nat.ofDigitChars_append, Nat.ofDigitChars_replicate_zero, Nat.mul_zero,
    Nat.ofDigitChars_ten_toDigits]

/-- Different numbers have different digits. -/
theorem padded_injective (width : Nat) : Function.Injective (padded width) := by
  intro left right same
  rw [← ofDigitChars_padded width left, same, ofDigitChars_padded]

/-- The last digit comes last. -/
theorem padded_succ {width : Nat} (wide : 0 < width) (number : Nat) :
    padded (width + 1) number = padded width (number / 10) ++ [(number % 10).digitChar] := by
  by_cases small : number < 10
  · obtain ⟨rest, rfl⟩ : ∃ rest, width = rest + 1 := ⟨width - 1, by omega⟩
    have quotient : number / 10 = 0 := Nat.div_eq_of_lt small
    rw [padded, padded, quotient, Nat.toDigits_of_lt_base small, Nat.toDigits_zero,
      Nat.mod_eq_of_lt small]
    simp only [List.leftpad, List.length_singleton, Nat.add_sub_cancel]
    rw [List.replicate_succ']
  · rw [padded, padded, Nat.toDigits_of_base_le (by decide) (Nat.not_lt.mp small)]
    simp only [List.leftpad, List.length_append, List.length_singleton, Nat.add_sub_add_right,
      List.append_assoc]

/-- A number that fits the width takes exactly the width. -/
theorem padded_length {width number : Nat} (wide : 0 < width) (fits : number < 10 ^ width) :
    (padded width number).length = width := by
  induction width, wide using Nat.le_induction generalizing number with
  | base =>
    rw [padded, Nat.toDigits_of_lt_base (by simpa using fits)]
    rfl
  | succ width wide ih =>
    have smaller : number / 10 < 10 ^ width :=
      Nat.div_lt_of_lt_mul (by rwa [Nat.pow_succ, Nat.mul_comm] at fits)
    rw [padded_succ wide, List.length_append, ih smaller, List.length_singleton]

/-- Texts of one length that differ before their ends are ordered by that difference. -/
theorem append_lt_append {left right : List Char} (less : left < right)
    (same : left.length = right.length) (after after' : List Char) :
    left ++ after < right ++ after' := by
  induction less with
  | nil => contradiction
  | rel smaller => exact .rel smaller
  | cons _ ih => exact .cons (ih (Nat.succ.inj same))

/-- Digits are ordered as numbers are. -/
theorem digitChar_lt {less more : Nat} (ordered : less < more) (digit : more < 10) :
    less.digitChar < more.digitChar := by
  have table : ∀ more < 10, ∀ less < more, less.digitChar < more.digitChar := by decide
  exact table more digit less ordered

/-- Padded numbers are ordered as numbers are. -/
theorem padded_lt {width less more : Nat} (wide : 0 < width) (ordered : less < more)
    (fits : more < 10 ^ width) : padded width less < padded width more := by
  induction width, wide using Nat.le_induction generalizing less more with
  | base =>
    have digit : more < 10 := by simpa using fits
    rw [padded, padded, Nat.toDigits_of_lt_base digit,
      Nat.toDigits_of_lt_base (Nat.lt_trans ordered digit)]
    exact .rel (digitChar_lt ordered digit)
  | succ width wide ih =>
    have fitting : more / 10 < 10 ^ width :=
      Nat.div_lt_of_lt_mul (by rwa [Nat.pow_succ, Nat.mul_comm] at fits)
    rw [padded_succ wide, padded_succ wide]
    have quotients : less / 10 ≤ more / 10 := Nat.div_le_div_right ordered.le
    obtain smaller | equal := Nat.lt_or_eq_of_le quotients
    · refine append_lt_append (ih smaller fitting) ?_ _ _
      rw [padded_length wide (Nat.lt_trans smaller fitting), padded_length wide fitting]
    · -- The numbers agree up to their last digits.
      have last : less % 10 < more % 10 := by omega
      rw [equal]
      exact List.Lex.append_left _ (.rel (digitChar_lt last (Nat.mod_lt _ (by decide)))) _

/-- A number takes the width, or as many digits as it has. -/
theorem length_padded (width number : Nat) :
    (padded width number).length = max width (Nat.toDigits 10 number).length := by
  rw [padded, List.leftpad, List.length_append, List.length_replicate]
  omega

/-- Padding to the length that a padded number has does not change it. -/
theorem padded_length_self (width number : Nat) :
    padded (padded width number).length number = padded width number := by
  have length := length_padded width number
  have fill : (padded width number).length - (Nat.toDigits 10 number).length =
      width - (Nat.toDigits 10 number).length := by omega
  rw [padded, List.leftpad, fill]
  rfl

/-- A padded number takes some width. -/
theorem length_padded_pos (width number : Nat) : 0 < (padded width number).length := by
  have digits := @Nat.length_toDigits_pos 10 number
  have length := length_padded width number
  omega

/-- A number is below the power of ten of its length. -/
theorem lt_pow_length_padded (width number : Nat) :
    number < 10 ^ (padded width number).length := by
  apply (Nat.length_toDigits_le_iff (by decide) (length_padded_pos width number)).mp
  rw [length_padded]
  exact le_max_right ..

/-- Greater numbers are not written shorter. -/
theorem length_padded_le {less more : Nat} (width : Nat) (ordered : less ≤ more) :
    (padded width less).length ≤ (padded width more).length := by
  have below := Nat.lt_of_le_of_lt ordered (lt_pow_length_padded width more)
  have digits := (Nat.length_toDigits_le_iff (by decide) (length_padded_pos width more)).mpr below
  have length := length_padded width less
  have wide := length_padded width more
  omega

/-- Numbers written with the same length are ordered as texts as they are as numbers. -/
theorem padded_lt_of_length {width less more : Nat} (ordered : less < more)
    (same : (padded width less).length = (padded width more).length) :
    padded width less < padded width more := by
  have wide := length_padded_pos width more
  have smaller := padded_lt wide ordered (lt_pow_length_padded width more)
  rwa [padded_length_self, ← same, padded_length_self] at smaller

/-- The digits of a padded number are digits. -/
theorem isDigit_of_mem_padded {width number : Nat} {digit : Char}
    (among : digit ∈ padded width number) : digit.isDigit = true := by
  rw [padded, List.leftpad, List.mem_append] at among
  obtain zero | later := among
  · rw [List.eq_of_mem_replicate zero]
    rfl
  · exact Nat.isDigit_of_mem_toDigits (by decide) (by decide) later

end MatchX.Support
