import Mathlib.Order.Lattice
import Mathlib.Tactic.Common

/-!
# Timestamps

`struct timespec` and its `operator<` (`cputime.cpp`). The order instance is
that comparison: `a < b` is `operator<(a, b)`, and `a ≤ b` is that
`operator<(b, a)` is false. That it is a linear order is what makes sorting
by it meaningful.
-/

namespace AppServer

/-- `struct timespec`. -/
structure Timespec where
  tv_sec : ℤ
  tv_nsec : ℤ
  deriving DecidableEq, Repr

namespace Timespec

/-- `operator<(const struct timespec &, const struct timespec &)`. -/
def lt (a b : Timespec) : Bool :=
  if a.tv_sec ≠ b.tv_sec then decide (a.tv_sec < b.tv_sec) else decide (a.tv_nsec < b.tv_nsec)

theorem lt_eq_true {a b : Timespec} :
    a.lt b = true ↔ a.tv_sec < b.tv_sec ∨ a.tv_sec = b.tv_sec ∧ a.tv_nsec < b.tv_nsec := by
  unfold lt
  split <;> rw [decide_eq_true_eq] <;> omega

theorem lt_eq_false {a b : Timespec} :
    a.lt b = false ↔ b.tv_sec < a.tv_sec ∨ b.tv_sec = a.tv_sec ∧ b.tv_nsec ≤ a.tv_nsec := by
  rw [← Bool.not_eq_true, lt_eq_true]
  omega

/-- **`operator<` is a linear order.** -/
instance : LinearOrder Timespec where
  le a b := b.lt a = false
  lt a b := a.lt b = true
  le_refl a := by rw [lt_eq_false]; omega
  le_trans a b c := by simp only [lt_eq_false]; omega
  lt_iff_le_not_ge a b := by simp only [lt_eq_true, lt_eq_false]; omega
  le_antisymm a b := by
    simp only [lt_eq_false]
    intro h₁ h₂
    obtain ⟨sa, na⟩ := a
    obtain ⟨sb, nb⟩ := b
    simp only at h₁ h₂
    rw [Timespec.mk.injEq]
    omega
  le_total a b := by simp only [lt_eq_false]; omega
  toDecidableLE := fun a b => inferInstanceAs (Decidable (b.lt a = false))
  toDecidableLT := fun a b => inferInstanceAs (Decidable (a.lt b = true))
  toDecidableEq := inferInstance

end Timespec

end AppServer
