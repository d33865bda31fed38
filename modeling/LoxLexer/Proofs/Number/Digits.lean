import LoxLexer.Number.Digits
import Mathlib.Data.List.Basic
import Mathlib.Data.Nat.Digits.Defs

/-!
# Decimal digits and the numbers they stand for

The digits that a number is written with stand for that number, so no two numbers are
written alike.  Only zero is written with a leading zero.
-/

namespace LoxLexer

theorem digitsValue_eq_ofDigitChars (digits : List Char) :
    digitsValue digits = Nat.ofDigitChars 10 digits 0 :=
  Nat.ofDigitChars_eq_foldl.symm

@[simp] theorem digitsValue_decimalDigits (n : Nat) : digitsValue (decimalDigits n) = n := by
  rw [digitsValue_eq_ofDigitChars, decimalDigits, Nat.ofDigitChars_ten_toDigits]

theorem decimalDigits_injective {m n : Nat} (hdigits : decimalDigits m = decimalDigits n) :
    m = n := by
  rw [← digitsValue_decimalDigits m, hdigits, digitsValue_decimalDigits]

theorem isDigit_iff (c : Char) : isDigit c = true ↔ c.isDigit = true := by
  simp only [isDigit, Char.isDigit, Bool.and_eq_true, decide_eq_true_eq]
  rfl

theorem isDigit_of_mem_decimalDigits {n : Nat} {c : Char} (hc : c ∈ decimalDigits n) :
    isDigit c := by
  rw [isDigit_iff]
  exact Nat.isDigit_of_mem_toDigits (by decide) (by decide) hc

theorem decimalDigits_ne_nil (n : Nat) : decimalDigits n ≠ [] :=
  Nat.toDigits_ne_nil

theorem head_decimalDigits {n : Nat} (hpos : 0 < n) : (decimalDigits n).head? ≠ some '0' := by
  induction n using Nat.strongRecOn with
  | ind n ih =>
      unfold decimalDigits at ih ⊢
      by_cases hsmall : n < 10
      · have hall : ∀ digit < 10, 0 < digit → [Nat.digitChar digit].head? ≠ some '0' := by decide
        rw [Nat.toDigits_of_lt_base hsmall]
        exact hall n hsmall hpos
      · have hne : Nat.toDigits 10 (n / 10) ≠ [] := decimalDigits_ne_nil (n / 10)
        rw [Nat.toDigits_of_base_le (by decide) (by omega), List.head?_append_of_ne_nil _ hne]
        exact ih (n / 10) (by omega) (by omega)

theorem digitsValue_replicate_append (zeros : Nat) (digits : List Char) :
    digitsValue (List.replicate zeros '0' ++ digits) = digitsValue digits := by
  rw [digitsValue_eq_ofDigitChars, digitsValue_eq_ofDigitChars, Nat.ofDigitChars_append,
    Nat.ofDigitChars_replicate_zero, Nat.mul_zero]

theorem digitsValue_append_replicate (digits : List Char) (zeros : Nat) :
    digitsValue (digits ++ List.replicate zeros '0') = digitsValue digits * Nat.pow 10 zeros := by
  rw [digitsValue_eq_ofDigitChars, digitsValue_eq_ofDigitChars, Nat.ofDigitChars_append,
    Nat.ofDigitChars_replicate_zero, Nat.mul_comm]
  rfl

theorem isDigit_of_mem_replicate {zeros : Nat} {c : Char} (hc : c ∈ List.replicate zeros '0') :
    isDigit c := by
  rw [List.eq_of_mem_replicate hc]
  decide

end LoxLexer
