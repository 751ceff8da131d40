import Mathlib.Algebra.Order.Field.Rat
import Mathlib.Algebra.Order.Field.Basic
import Mathlib.Algebra.Order.Ring.Cast
import Mathlib.Tactic.NormNum
import Mathlib.Tactic.Common

/-!
# Decimal fractions

Reading a decimal fraction out of text, and what is read where the two
numbers around the point were written one after the other: the places after
the point are as many as the second number has digits, so its leading zeros
are missing.
-/

namespace AppServer

namespace Lib

/-- The value of a decimal fraction: digits, a point, digits. -/
def readDecimal (cs : List Char) : Option ℚ :=
  let whole := cs.takeWhile (· ≠ '.')
  let frac := (cs.dropWhile (· ≠ '.')).tail
  if whole ≠ [] ∧ frac ≠ [] ∧ whole.all Char.isDigit ∧ frac.all Char.isDigit then
    some ((Nat.ofDigitChars 10 whole 0 : ℚ) + Nat.ofDigitChars 10 frac 0 / 10 ^ frac.length)
  else none

/-! ## Up to a character -/

section Until

variable {α : Type*} [DecidableEq α] {c : α} {l cs : List α}

theorem takeWhile_ne (h : c ∉ l) : (l ++ c :: cs).takeWhile (· ≠ c) = l := by
  rw [List.takeWhile_append_of_pos, List.takeWhile_cons_of_neg (by simp), List.append_nil]
  intro d hd
  rw [decide_eq_true_iff]
  exact fun heq => h (heq ▸ hd)

theorem dropWhile_ne (h : c ∉ l) : (l ++ c :: cs).dropWhile (· ≠ c) = c :: cs := by
  have happ := List.takeWhile_append_dropWhile (p := (· ≠ c)) (l := l ++ c :: cs)
  rw [takeWhile_ne h] at happ
  exact List.append_cancel_left happ

end Until

/-! ## What was written -/

variable {m n k : ℕ} {c : Char}

theorem isDigit_of_mem (hc : c ∈ Nat.toDigits 10 n) : c.isDigit = true :=
  Nat.isDigit_of_mem_toDigits (by decide) (by decide) hc

theorem notMem_toDigits (hc : c.isDigit = false) : c ∉ Nat.toDigits 10 n := by
  intro hmem
  rw [isDigit_of_mem hmem] at hc
  cases hc

/-- **What is read back.** -/
theorem readDecimal_toDigits :
    readDecimal (Nat.toDigits 10 m ++ '.' :: Nat.toDigits 10 n) =
      some ((m : ℚ) + n / 10 ^ (Nat.toDigits 10 n).length) := by
  have hdot : ∀ j : ℕ, '.' ∉ Nat.toDigits 10 j := fun j => notMem_toDigits rfl
  have hall : ∀ j : ℕ, (Nat.toDigits 10 j).all Char.isDigit = true := by
    intro j
    rw [List.all_eq_true]
    exact fun d hd => isDigit_of_mem hd
  unfold readDecimal
  rw [takeWhile_ne (hdot m), dropWhile_ne (hdot m), List.tail_cons,
    if_pos ⟨Nat.toDigits_ne_nil, Nat.toDigits_ne_nil, hall m, hall n⟩,
    Nat.ofDigitChars_ten_toDigits, Nat.ofDigitChars_ten_toDigits]

/-- The numeral of a number has more than `k` digits from `10 ^ k` on. -/
theorem lt_length_toDigits (hn : 0 < n) : k < (Nat.toDigits 10 n).length ↔ 10 ^ k ≤ n := by
  rcases Nat.eq_zero_or_pos k with rfl | hk
  · simpa using ⟨fun _ => hn, fun _ => Nat.length_toDigits_pos⟩
  · rw [← not_le, Nat.length_toDigits_le_iff (by decide) hk, not_lt]

/-- **When no place is missing**: a number written after the point counts as
so many places exactly where it fills them, or is nothing. -/
theorem div_digits_eq_iff (hn : n < 10 ^ (k + 1)) :
    (n : ℚ) / 10 ^ (Nat.toDigits 10 n).length = n / 10 ^ (k + 1) ↔ n = 0 ∨ 10 ^ k ≤ n := by
  rcases Nat.eq_zero_or_pos n with rfl | hpos
  · simp
  · have hle := (Nat.length_toDigits_le_iff (b := 10) (by decide) k.succ_pos).2 hn
    have hne : (n : ℚ) ≠ 0 := by exact_mod_cast hpos.ne'
    have hpow : ∀ j : ℕ, (10 : ℚ) ^ j ≠ 0 := fun j => pow_ne_zero j (by norm_num)
    rw [div_eq_div_iff (hpow _) (hpow _), mul_right_inj' hne,
      pow_right_inj₀ (by norm_num) (by norm_num), ← lt_length_toDigits hpos]
    omega

end Lib

end AppServer
