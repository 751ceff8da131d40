import Mathlib.Data.Nat.Size
import Mathlib.Order.Nat
import Mathlib.Algebra.Order.Ring.Nat

/-!
# Rounding up to a power of two with shifts

`x ||| x >>> 1 ||| …` sets every bit below the highest one of `x`
(`Covers.all_ones`): each shift by as much as has been covered so far covers
twice as much (`Covers.double`). One more than that is the power of two above.
-/

namespace AppServer

namespace Lib

variable {x y n d : ℕ}

/-- `y` has the bits that have a bit of `x` less than `d` places above them. -/
def Covers (x y d : ℕ) : Prop :=
  ∀ i, y.testBit i = true ↔ ∃ j, i ≤ j ∧ j < i + d ∧ x.testBit j = true

namespace Covers

theorem refl : Covers x x 1 := by
  intro i
  constructor
  · exact fun h => ⟨i, le_refl i, Nat.lt_succ_self i, h⟩
  · rintro ⟨j, hij, hj, h⟩
    obtain rfl : i = j := by omega
    exact h

/-- **A shift by `d` covers twice as much.** -/
theorem double (h : Covers x y d) : Covers x (y ||| y >>> d) (d + d) := by
  intro i
  rw [Nat.testBit_or, Nat.testBit_shiftRight, Bool.or_eq_true, h i, h (d + i)]
  constructor
  · rintro (⟨j, hij, hj, hx⟩ | ⟨j, hij, hj, hx⟩)
    · exact ⟨j, hij, by omega, hx⟩
    · exact ⟨j, by omega, by omega, hx⟩
  · rintro ⟨j, hij, hj, hx⟩
    rcases Nat.lt_or_ge j (i + d) with hlt | hge
    · exact Or.inl ⟨j, hij, hlt, hx⟩
    · exact Or.inr ⟨j, by omega, by omega, hx⟩

/-- **All ones**, once the whole word is covered. -/
theorem all_ones (h : Covers x y d) (hx : x < 2 ^ d) : y = 2 ^ Nat.size x - 1 := by
  refine Nat.eq_of_testBit_eq fun i => ?_
  rw [Nat.testBit_two_pow_sub_one, Bool.eq_iff_iff, h i, decide_eq_true_iff, Nat.lt_size]
  constructor
  · rintro ⟨j, hij, -, hj⟩
    exact le_trans (Nat.pow_le_pow_right Nat.two_pos hij) (Nat.ge_two_pow_of_testBit hj)
  · intro hi
    obtain ⟨j, hij, hj⟩ := Nat.exists_ge_and_testBit_of_ge_two_pow hi
    refine ⟨j, hij, ?_, hj⟩
    have hjd : j < d := (Nat.pow_lt_pow_iff_right Nat.one_lt_two).1
      (lt_of_le_of_lt (Nat.ge_two_pow_of_testBit hj) hx)
    omega

end Covers

/-- The power of two above is the least one. -/
theorem two_pow_size_pred_le (hn : 0 < n) {e : ℕ} (h : n ≤ 2 ^ e) :
    2 ^ Nat.size (n - 1) ≤ 2 ^ e := by
  have hsize : Nat.size (n - 1) ≤ e := Nat.size_le.2 (by omega)
  exact Nat.pow_le_pow_right (by omega) hsize

/-- It is not less. -/
theorem le_two_pow_size_pred : n ≤ 2 ^ Nat.size (n - 1) := by
  have h := Nat.lt_size_self (n - 1)
  omega

end Lib

end AppServer
