import Mathlib.Data.List.TakeWhile
import ShapeSearch.Text

namespace ShapeSearch.Text

theorem decimal_digits {n : Nat} : ∀ c ∈ decimal n, c.isDigit = true :=
  fun _ hc => Nat.isDigit_of_mem_toDigits (by decide) (by decide) hc

theorem decimal_ne_nil (n : Nat) : decimal n ≠ [] :=
  Nat.toDigits_ne_nil

theorem head?_decimal_ne {n : Nat} (h : 0 < n) : (decimal n).head? ≠ some '0' := by
  induction n using Nat.strong_induction_on with
  | _ n ih =>
      have hdigit : ∀ n < 10, 0 < n → (decimal n).head? ≠ some '0' := by decide
      by_cases hn : n < 10
      · exact hdigit n hn h
      · have hquotient := ih (n / 10) (by omega) (by omega)
        rw [decimal, Nat.toDigits_of_base_le (by decide) (by omega), List.head?_append]
        cases hdigits : decimal (n / 10) with
        | nil => exact absurd hdigits (decimal_ne_nil _)
        | cons c t =>
            rw [hdigits] at hquotient
            rw [decimal] at hdigits
            simpa [hdigits] using hquotient

theorem digitValue?_of_isDigit {c : Char} (h : c.isDigit = true) :
    digitValue? c = some (c.toNat - 48) := by
  simp only [Char.isDigit, Bool.and_eq_true, decide_eq_true_eq] at h
  exact if_pos h

theorem digit_lt_ten {c : Char} (h : c.isDigit = true) : c.toNat - 48 < 10 := by
  have hrange : c.toNat ≤ 57 := by
    simp only [Char.isDigit, Bool.and_eq_true, decide_eq_true_eq] at h
    exact UInt32.le_iff_toNat_le.mp h.2
  omega

theorem readDigitsAfter?_of_digits {t : Text} (h : ∀ c ∈ t, c.isDigit = true) (n : Nat) :
    readDigitsAfter? 10 n t = some (Nat.ofDigitChars 10 t n) := by
  induction t generalizing n with
  | nil => rfl
  | cons c t ih =>
      have hc := h c List.mem_cons_self
      rw [readDigitsAfter?, digitValue?_of_isDigit hc]
      simp only [digit_lt_ten hc, if_true]
      rw [ih fun d hd => h d (List.mem_cons_of_mem c hd), Nat.ofDigitChars_cons, Nat.mul_comm]
      rfl

theorem readDigits?_decimal (n : Nat) : readDigits? 10 (decimal n) = some n := by
  have hread := readDigitsAfter?_of_digits (decimal_digits (n := n)) 0
  rw [decimal, Nat.ofDigitChars_ten_toDigits] at hread
  cases hdigits : decimal n with
  | nil => exact absurd hdigits (decimal_ne_nil n)
  | cons c t =>
      rw [decimal] at hdigits
      rwa [hdigits] at hread

theorem readUnsigned?_of_head {radix bound : Nat} {t : Text} (h : t.head? ≠ some '+') :
    readUnsigned? radix bound t = (readDigits? radix t).filter (· < bound) := by
  simp only [readUnsigned?]
  split
  next => exact absurd rfl h
  next => rfl

theorem readUnsigned?_decimal {bound n : Nat} (h : n < bound) :
    readUnsigned? 10 bound (decimal n) = some n := by
  have hhead : (decimal n).head? ≠ some '+' := by
    intro hplus
    have hdigit := decimal_digits _ (List.mem_of_head? hplus)
    exact absurd hdigit (by decide)
  rw [readUnsigned?_of_head hhead, readDigits?_decimal]
  exact Option.filter_some_pos (decide_eq_true h)

theorem takeWhile_decimal {n : Nat} {rest : Text} (h : rest.head?.all (!·.isDigit) = true) :
    (decimal n ++ rest).takeWhile Char.isDigit = decimal n := by
  have hnone : rest.takeWhile Char.isDigit = [] := by
    cases rest with
    | nil => rfl
    | cons c t => simpa using h
  rw [List.takeWhile_append_of_pos decimal_digits, hnone, List.append_nil]

end ShapeSearch.Text
