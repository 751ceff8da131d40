import Mathlib.Logic.Function.Basic
import Mathlib.Data.Nat.ModEq
import Mathlib.Data.List.Basic

/-!
# Circular buffers

A buffer has slots `0, …, m - 1`, and after the last comes slot 0 again.
`Holds m data i xs` says that the slots hold the items `xs`, in order from
slot `i` on, and nothing else. One slot at least is left empty, so that the
slot after the last item is the slot of the first only if there is no item:
`advance_eq_iff` and `next_eq_iff` are the tests for empty and for full.
-/

namespace AppServer

namespace Lib

namespace CircularBuffer

variable {α : Type*} {m i j k : ℕ} {data : ℕ → Option α} {x : α} {xs : List α}

/-- The slots hold `xs`, from slot `i` on, and nothing else. -/
def Holds (m : ℕ) (data : ℕ → Option α) (i : ℕ) (xs : List α) : Prop :=
  xs.length < m ∧ ∀ j < m, data ((i + j) % m) = xs[j]?

/-! ## Indices -/

/-- Going less than once round, different distances lead to different
slots. -/
theorem eq_of_add_mod_eq (hj : j < m) (hk : k < m) (h : (i + j) % m = (i + k) % m) : j = k := by
  have hjk : j ≡ k [MOD m] := Nat.ModEq.add_left_cancel' i h
  exact hjk.eq_of_lt_of_lt hj hk

/-- **Empty.** Going less than once round leads back only if one does not
move. -/
theorem advance_eq_iff (hi : i < m) (hj : j < m) : (i + j) % m = i ↔ j = 0 := by
  constructor
  · intro h
    refine eq_of_add_mod_eq hj (Nat.zero_lt_of_lt hi) (i := i) ?_
    rw [h, Nat.add_zero, Nat.mod_eq_of_lt hi]
  · rintro rfl
    exact Nat.mod_eq_of_lt hi

/-- **Full.** The slot after is the first again if one has gone all the way
round but for one. -/
theorem next_eq_iff (hi : i < m) (hj : j < m) : ((i + j) % m + 1) % m = i ↔ j + 1 = m := by
  rw [Nat.mod_add_mod, Nat.add_assoc]
  rcases Nat.lt_or_ge (j + 1) m with h | h
  · rw [advance_eq_iff hi h]
    omega
  · obtain rfl : m = j + 1 := by omega
    rw [Nat.add_mod_right, Nat.mod_eq_of_lt hi]
    simp

/-- A mask of ones takes the remainder by a power of two. -/
theorem and_mask {e mask : ℕ} (h : mask + 1 = 2 ^ e) (n : ℕ) : n &&& mask = n % (mask + 1) := by
  have hmask : mask = 2 ^ e - 1 := by omega
  rw [h, hmask]
  exact Nat.and_two_pow_sub_one_eq_mod n e

/-! ## Contents -/

/-- A buffer with nothing in it. -/
theorem holds_nil (hm : 0 < m) : Holds m (fun _ => (none : Option α)) i [] :=
  ⟨hm, fun _ _ => rfl⟩

/-- The first item is in the first slot. -/
theorem Holds.first (h : Holds m data i (x :: xs)) : data (i % m) = some x := by
  have hx := h.2 0 (Nat.zero_lt_of_lt h.1)
  simpa using hx

/-- The slot after the last item is empty. -/
theorem Holds.room (h : Holds m data i xs) : data ((i + xs.length) % m) = none := by
  rw [h.2 xs.length h.1, List.getElem?_eq_none (le_refl _)]

/-- An item put in the slot after the last. -/
theorem Holds.push (h : Holds m data i xs) (hroom : xs.length + 1 < m) :
    Holds m (Function.update data ((i + xs.length) % m) (some x)) i (xs ++ [x]) := by
  refine ⟨by simpa using hroom, fun j hj => ?_⟩
  by_cases hlast : j = xs.length
  · subst hlast
    simp
  · have hne : (i + j) % m ≠ (i + xs.length) % m :=
      fun he => hlast (eq_of_add_mod_eq hj h.1 he)
    rw [Function.update_of_ne hne, h.2 j hj, List.getElem?_append]
    split
    · rfl
    · rw [List.getElem?_eq_none (by omega), List.getElem?_eq_none (by simp; omega)]

/-- The first item taken out of its slot. -/
theorem Holds.pop (h : Holds m data i (x :: xs)) :
    Holds m (Function.update data (i % m) none) ((i + 1) % m) xs := by
  have hlen : xs.length + 1 < m := h.1
  refine ⟨Nat.lt_of_succ_lt hlen, fun j hj => ?_⟩
  rw [Nat.mod_add_mod, Nat.add_assoc, Nat.add_comm 1 j]
  rcases Nat.lt_or_ge (j + 1) m with hlt | hge
  · have hne : (i + (j + 1)) % m ≠ i % m := by
      intro he
      exact Nat.succ_ne_zero j (eq_of_add_mod_eq (k := 0) hlt (Nat.zero_lt_of_lt hlt) he)
    rw [Function.update_of_ne hne, h.2 (j + 1) hlt]
    rfl
  · -- once round: the slot just emptied
    obtain rfl : m = j + 1 := by omega
    rw [Nat.add_mod_right, Function.update_self, List.getElem?_eq_none (by omega)]

end CircularBuffer

end Lib

end AppServer
