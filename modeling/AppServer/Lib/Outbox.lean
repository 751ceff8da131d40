import Mathlib.Data.List.Basic
import Mathlib.Logic.Relation

/-!
# Write buffers

An outbox collects items in a buffer with room for `cap` and passes them on
a batch at a time. While a batch is in flight the buffer is left alone; when
it has arrived its items are released and the buffer is empty again. The
histories say what was accepted, submitted and released so far.

The law is that items neither get lost on the way nor overtake each other:
what was submitted, followed by what still waits, is what was accepted
(`Sound.submitted_append_waiting`), and what was released, followed by what
is in the buffer, is that too.
-/

namespace AppServer

namespace Lib

/-- An outbox. -/
structure Outbox (α : Type*) where
  buffer : List α
  inFlight : Bool
  accepted : List α
  submitted : List α
  released : List α

namespace Outbox

variable {α : Type*} {cap : ℕ} {o o' : Outbox α}

/-- A new outbox. -/
def empty : Outbox α := ⟨[], false, [], [], []⟩

/-- The items that were accepted and not submitted. -/
def waiting (o : Outbox α) : List α := if o.inFlight then [] else o.buffer

/-- **The steps.** -/
inductive Step (cap : ℕ) (o : Outbox α) : Outbox α → Prop
  /-- An item is put in the buffer. -/
  | accept (x : α) : o.inFlight = false → o.buffer.length ≠ cap →
      Step cap o { o with buffer := o.buffer ++ [x], accepted := o.accepted ++ [x] }
  /-- The buffer is submitted as one batch. -/
  | submit : o.inFlight = false → o.buffer ≠ [] →
      Step cap o { o with inFlight := true, submitted := o.submitted ++ o.buffer }
  /-- The batch has arrived. -/
  | arrive : o.inFlight = true →
      Step cap o { o with inFlight := false, buffer := [], released := o.released ++ o.buffer }

/-- **What holds of an outbox at any time.** -/
structure Sound (cap : ℕ) (o : Outbox α) : Prop where
  accepted : o.released ++ o.buffer = o.accepted
  submitted : o.submitted = o.released ++ if o.inFlight then o.buffer else []
  bounded : o.buffer.length ≤ cap
  filled : o.inFlight = true → o.buffer ≠ []

theorem sound_empty : Sound cap (empty : Outbox α) where
  accepted := rfl
  submitted := rfl
  bounded := Nat.zero_le cap
  filled h := by cases h

theorem Sound.step (hs : Sound cap o) (h : Step cap o o') : Sound cap o' := by
  cases h with
  | accept x hidle hroom =>
    have hlt := Nat.lt_of_le_of_ne hs.bounded hroom
    refine ⟨?_, ?_, ?_, fun h => ?_⟩
    · rw [← List.append_assoc, hs.accepted]
    · simp [hs.submitted, hidle]
    · rw [List.length_append, List.length_singleton]
      omega
    · rw [hidle] at h
      cases h
  | submit hidle hne =>
    refine ⟨hs.accepted, ?_, hs.bounded, fun _ => hne⟩
    simp [hs.submitted, hidle]
  | arrive hflight =>
    refine ⟨?_, ?_, Nat.zero_le cap, fun h => by cases h⟩
    · simpa using hs.accepted
    · simp [hs.submitted, hflight]

/-- **An outbox is sound in every run.** -/
theorem sound_of_steps (h : Relation.ReflTransGen (Step cap) empty o) : Sound cap o := by
  induction h with
  | refl => exact sound_empty
  | tail _ hstep ih => exact ih.step hstep

/-- Nothing is lost, repeated or reordered on the way. -/
theorem Sound.submitted_append_waiting (hs : Sound cap o) :
    o.submitted ++ o.waiting = o.accepted := by
  rw [hs.submitted, ← hs.accepted, waiting]
  cases o.inFlight <;> simp

end Outbox

end Lib

end AppServer
