import AppServer.Lib.Decimal
import AppServer.Logger.Message

/-!
# Printing log messages

`operator<<(std::ostream &, LogMessage &)`, which `LogConsumer::ordered_log`
writes to standard error with, begins a line with the time of the message:
the seconds, a point, the nanoseconds, each as a plain number. Read as the
decimal number it looks like, that is the time only where the nanoseconds
fill their nine places (`FillsPlaces`).
-/

namespace AppServer

open Lib

namespace Timespec

/-- The values `gettime` gives. -/
structure InRange (t : Timespec) : Prop where
  sec : 0 ≤ t.tv_sec
  nsec : 0 ≤ t.tv_nsec
  nsec_lt : t.tv_nsec < 10 ^ 9

/-- The time in seconds. -/
def seconds (t : Timespec) : ℚ := t.tv_sec + t.tv_nsec / 10 ^ 9

/-- The nanoseconds have nine digits, or there are none. -/
def FillsPlaces (t : Timespec) : Prop := t.tv_nsec = 0 ∨ 10 ^ 8 ≤ t.tv_nsec

instance (t : Timespec) : Decidable t.FillsPlaces := inferInstanceAs (Decidable (_ ∨ _))

variable {a b t : Timespec}

/-- In numbers, the values of a time in range. -/
theorem InRange.eq_mk (h : t.InRange) : ∃ m n : ℕ, n < 10 ^ 9 ∧ t = ⟨m, n⟩ := by
  obtain ⟨m, hm⟩ := Int.eq_ofNat_of_zero_le h.sec
  obtain ⟨n, hn⟩ := Int.eq_ofNat_of_zero_le h.nsec
  have hlt := h.nsec_lt
  rw [hn] at hlt
  exact ⟨m, n, by exact_mod_cast hlt, by rw [← hm, ← hn]⟩

theorem seconds_mul (m n : ℕ) :
    seconds ⟨m, n⟩ * 10 ^ 9 = ((m * 10 ^ 9 + n : ℕ) : ℚ) := by
  rw [seconds, add_mul, div_mul_cancel₀ _ (by norm_num)]
  push_cast
  rfl

/-- **`operator<` compares the times in seconds.** -/
theorem seconds_lt_iff (ha : a.InRange) (hb : b.InRange) : a.seconds < b.seconds ↔ a < b := by
  obtain ⟨m, n, hn, rfl⟩ := ha.eq_mk
  obtain ⟨m', n', hn', rfl⟩ := hb.eq_mk
  have hpos : (0 : ℚ) < 10 ^ 9 := by norm_num
  rw [← mul_lt_mul_iff_left₀ hpos, seconds_mul, seconds_mul, Nat.cast_lt]
  refine Iff.trans ?_ lt_eq_true.symm
  show _ ↔ (m : ℤ) < m' ∨ (m : ℤ) = m' ∧ (n : ℤ) < n'
  omega

end Timespec

namespace Logger

/-! ## The operators -/

/-- `operator<<(std::ostream &, LogItem &)`, the stream being what was
written to it. -/
def LogItem.write (os : String) (li : LogItem) : String := os ++ li.name ++ " " ++ li.data

/-- `operator<<(std::ostream &, LogMessage &)`. -/
def LogMessage.write (os : String) (lm : LogMessage) : String :=
  let os := os ++ toString lm.when.tv_sec ++ "." ++ toString lm.when.tv_nsec ++ ": " ++
    lm.filename ++ ":" ++ toString lm.line_no ++ " "
  let os := lm.items.foldl (fun os i => LogItem.write os i ++ " ") os
  os ++ "\n"

/-- `LogConsumer::ordered_log`, `cerr` being what standard error has got. -/
def orderedLog (cerr : String) (msg : LogMessage) : String := cerr ++ LogMessage.write "" msg

/-- The text before the first colon, read as a decimal fraction. -/
def LogMessage.printedTime (m : LogMessage) : Option ℚ :=
  readDecimal ((orderedLog "" m).toList.takeWhile (· ≠ ':'))

variable {m a b : LogMessage}

/-- The items come after what is there. -/
theorem prefix_foldl_write (items : List LogItem) (os : String) :
    os.toList <+: (items.foldl (fun os i => LogItem.write os i ++ " ") os).toList := by
  induction items generalizing os with
  | nil => exact List.prefix_refl _
  | cons i items ih =>
    refine List.IsPrefix.trans ?_ (ih _)
    simp only [LogItem.write, String.toList_append, List.append_assoc]
    exact List.prefix_append _ _

theorem toList_repr (n : ℕ) : (n : ℤ).repr.toList = Nat.toDigits 10 n := by
  rw [Int.repr_eq_if, if_pos (Int.natCast_nonneg n), Int.toNat_natCast,
    Nat.toList_repr]

/-- **A line begins with the time**, up to its first colon. -/
theorem toList_orderedLog {sec nsec : ℕ} (h : m.when = ⟨sec, nsec⟩) : ∃ rest,
    (orderedLog "" m).toList =
      (Nat.toDigits 10 sec ++ '.' :: Nat.toDigits 10 nsec) ++ ':' :: rest := by
  obtain ⟨rest, hrest⟩ := prefix_foldl_write m.items ("" ++ toString m.when.tv_sec ++ "." ++
    toString m.when.tv_nsec ++ ": " ++ m.filename ++ ":" ++ toString m.line_no ++ " ")
  rw [h] at hrest
  refine ⟨' ' :: m.filename.toList ++ ':' :: (toString m.line_no).toList ++ ' ' :: rest ++ ['\n'],
    ?_⟩
  simp only [orderedLog, LogMessage.write, String.toList_append, h]
  rw [← hrest]
  simp [toList_repr]

/-- What is read of it. -/
theorem printedTime_eq {sec nsec : ℕ} (h : m.when = ⟨sec, nsec⟩) :
    m.printedTime = some ((sec : ℚ) + nsec / 10 ^ (Nat.toDigits 10 nsec).length) := by
  obtain ⟨rest, hrest⟩ := toList_orderedLog h
  have hcolon : ∀ j : ℕ, ':' ∉ Nat.toDigits 10 j := fun j => notMem_toDigits rfl
  rw [LogMessage.printedTime, hrest, takeWhile_ne (by simp [hcolon]), readDecimal_toDigits]

/-- **When the time printed is the time.** -/
theorem printedTime_iff (h : m.when.InRange) :
    m.printedTime = some m.when.seconds ↔ m.when.FillsPlaces := by
  obtain ⟨sec, nsec, hlt, heq⟩ := h.eq_mk
  rw [printedTime_eq heq, heq, Option.some_inj, Timespec.seconds, Timespec.FillsPlaces]
  push_cast
  rw [add_right_inj, div_digits_eq_iff hlt]
  norm_cast

/-- The times printed for two messages are their times, and the numbers
printed compare as the times do. -/
structure PrintedInOrder (a b : LogMessage) : Prop where
  left : a.printedTime = some a.when.seconds
  right : b.printedTime = some b.when.seconds
  lt_iff : a.when < b.when ↔ ∃ x y, a.printedTime = some x ∧ b.printedTime = some y ∧ x < y

/-- **When printed timestamps agree with the timestamp order.** -/
theorem printed_in_order_iff (ha : a.when.InRange) (hb : b.when.InRange) :
    PrintedInOrder a b ↔ a.when.FillsPlaces ∧ b.when.FillsPlaces := by
  rw [← printedTime_iff ha, ← printedTime_iff hb]
  constructor
  · exact fun h => ⟨h.left, h.right⟩
  · rintro ⟨hl, hr⟩
    refine ⟨hl, hr, ?_⟩
    rw [hl, hr, ← Timespec.seconds_lt_iff ha hb]
    simp

/-- A message logged at a time. -/
def sampleMessage (t : Timespec) : LogMessage := ⟨"a.cpp", "f", 1, LOG_INFO, t, []⟩

theorem printed_in_order_sample :
    PrintedInOrder (sampleMessage ⟨1, 250000000⟩) (sampleMessage ⟨2, 0⟩) ↔
      Timespec.FillsPlaces ⟨1, 250000000⟩ ∧ Timespec.FillsPlaces ⟨2, 0⟩ :=
  printed_in_order_iff (a := sampleMessage ⟨1, 250000000⟩) (b := sampleMessage ⟨2, 0⟩)
    ⟨by decide, by decide, by decide⟩ ⟨by decide, by decide, by decide⟩

/-- Five nanoseconds past a second are printed as half a second, which is
later than what is printed for three tenths of it. -/
theorem printed_out_of_order :
    (orderedLog "" (sampleMessage ⟨1, 5⟩)) = "1.5: a.cpp:1 \n" ∧
    (sampleMessage ⟨1, 5⟩).printedTime = some (3 / 2) ∧
    (sampleMessage ⟨1, 300000000⟩).printedTime = some (13 / 10) ∧
    (sampleMessage ⟨1, 5⟩).when < (sampleMessage ⟨1, 300000000⟩).when ∧
    ¬ PrintedInOrder (sampleMessage ⟨1, 5⟩) (sampleMessage ⟨1, 300000000⟩) := by
  refine ⟨rfl, ?_, ?_, by decide, fun h => ?_⟩
  · have hlen : (Nat.toDigits 10 5).length = 1 := rfl
    rw [printedTime_eq rfl, hlen]
    norm_num
  · have hlen : (Nat.toDigits 10 300000000).length = 9 := rfl
    rw [printedTime_eq rfl, hlen]
    norm_num
  · exact absurd ((printedTime_iff ⟨by decide, by decide, by decide⟩).1 h.left) (by decide)

end Logger

end AppServer
