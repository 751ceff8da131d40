import AppServer.Lib.CircularBuffer
import AppServer.Queue.Model

/-!
# A block and what the two threads know of it

`Sound` reads a block: `held` are the elements in it that the consumer can
still be given; `taken` is 1 while one has been moved out whose slot the
producer has not been given back, and `built` is an element constructed
behind `tail`. `TailSeen` and `FrontSeen` read the shadow copies: how far
behind the other thread's index `localTail` and `localFront` may be. What
each access does to the three is said here once.
-/

namespace AppServer

namespace Queue

open Lib.CircularBuffer

variable {α : Type*}

namespace Block

/-- The number of slots. -/
def size (b : Block α) : ℕ := b.sizeMask + 1

/-- **What a block holds.** -/
structure Sound (b : Block α) (taken : ℕ) (held built : List α) : Prop where
  size : ∃ e, b.size = 2 ^ (e + 1)
  front_lt : b.front < b.size
  tail : b.tail = (b.front + (taken + held.length)) % b.size
  fits : taken + held.length + built.length < b.size
  holds : Holds b.size b.data (b.front + taken) (held ++ built)

/-- `localTail` is a value `tail` has had since `low` elements before the
end of what the block holds. -/
def TailSeen (b : Block α) (taken : ℕ) (held : List α) (low : ℕ) : Prop :=
  ∃ n, low ≤ n ∧ n ≤ held.length ∧ b.localTail = (b.front + (taken + n)) % b.size

/-- `localFront` is a value `front` has had, and by it there is room for
`room` elements more. -/
def FrontSeen (b : Block α) (taken : ℕ) (held built : List α) (room : ℕ) : Prop :=
  ∃ n, b.localFront < b.size ∧ b.front = (b.localFront + n) % b.size ∧
    n + (taken + held.length) + built.length + room < b.size

variable {b : Block α} {taken low room i : ℕ} {held built : List α} {x : α}

theorem size_pos : 0 < b.size := Nat.succ_pos _

theorem Sound.two_le_size (h : b.Sound taken held built) : 2 ≤ b.size := by
  obtain ⟨e, he⟩ := h.size
  rw [he, Nat.pow_succ]
  exact Nat.le_mul_of_pos_left 2 (Nat.two_pow_pos e)

/-- The index after. -/
theorem Sound.next (h : b.Sound taken held built) (i : ℕ) :
    (i + 1) &&& b.sizeMask = (i + 1) % b.size := by
  obtain ⟨e, he⟩ := h.size
  exact and_mask he (i + 1)

/-! ## What the tests find -/

/-- `front == tail`. -/
theorem Sound.tail_eq_front_iff (h : b.Sound 0 held built) : b.tail = b.front ↔ held = [] := by
  have hfits := h.fits
  rw [h.tail, advance_eq_iff h.front_lt (by omega), Nat.zero_add, List.length_eq_zero_iff]

/-- `front != localTail`: there is an element. -/
theorem TailSeen.some (h : b.TailSeen 0 held 0) (hs : b.Sound 0 held built)
    (hne : b.front ≠ b.localTail) : b.TailSeen 0 held 1 := by
  obtain ⟨n, -, hn, heq⟩ := h
  refine ⟨n, ?_, hn, heq⟩
  by_contra hlt
  obtain rfl : n = 0 := by omega
  exact hne (by rw [heq, Nat.zero_add, Nat.add_zero, Nat.mod_eq_of_lt hs.front_lt])

theorem TailSeen.ne_nil (h : b.TailSeen taken held 1) : held ≠ [] := by
  rintro rfl
  obtain ⟨n, hlow, hn, -⟩ := h
  simp only [List.length_nil] at hn
  omega

theorem TailSeen.mono {low' : ℕ} (h : b.TailSeen taken held low) (hl : low' ≤ low) :
    b.TailSeen taken held low' := by
  obtain ⟨n, hlow, hn⟩ := h
  exact ⟨n, hl.trans hlow, hn⟩

/-- `nextBlockTail == localFront`: by what was seen the block is full. -/
theorem FrontSeen.next_eq_iff (h : b.FrontSeen taken held [] 0) (hs : b.Sound taken held []) :
    (b.tail + 1) &&& b.sizeMask = b.localFront ↔
      ¬ b.FrontSeen taken held [] 1 := by
  obtain ⟨n, hlt, hfront, hfits⟩ := h
  simp only [List.length_nil, Nat.add_zero] at hfits
  have htail : b.tail = (b.localFront + (n + (taken + held.length))) % b.size := by
    rw [hs.tail, hfront, Nat.mod_add_mod, Nat.add_assoc]
  rw [hs.next, htail, Lib.CircularBuffer.next_eq_iff hlt hfits]
  constructor
  · rintro hfull ⟨m, -, hfront', hfits'⟩
    simp only [List.length_nil, Nat.add_zero] at hfits'
    have hmn : n = m := eq_of_add_mod_eq (by omega) (by omega) (hfront.symm.trans hfront')
    omega
  · intro hno
    by_contra hne
    exact hno ⟨n, hlt, hfront, by simp only [List.length_nil]; omega⟩

/-! ## What the accesses do -/

/-- `localTail = tail.load()`. -/
theorem Sound.seeTail (h : b.Sound taken held built) :
    ({ b with localTail := b.tail } : Block α).Sound taken held built ∧
      ({ b with localTail := b.tail } : Block α).TailSeen taken held held.length :=
  ⟨⟨h.size, h.front_lt, h.tail, h.fits, h.holds⟩, held.length, le_refl _, le_refl _, h.tail⟩

/-- `localFront = front.load()`. -/
theorem Sound.seeFront (h : b.Sound taken held built) :
    ({ b with localFront := b.front } : Block α).Sound taken held built ∧
      ({ b with localFront := b.front } : Block α).FrontSeen taken held built 0 := by
  refine ⟨⟨h.size, h.front_lt, h.tail, h.fits, h.holds⟩, 0, h.front_lt, ?_, ?_⟩
  · exact (Nat.mod_eq_of_lt h.front_lt).symm
  · have hfits := h.fits
    show 0 + (taken + held.length) + built.length + 0 < b.size
    omega

/-- In an empty block there is room. -/
theorem Sound.seeFront_nil (h : b.Sound 0 [] []) :
    ({ b with localFront := b.front } : Block α).FrontSeen 0 [] [] 1 := by
  have htwo := h.two_le_size
  refine ⟨0, h.front_lt, (Nat.mod_eq_of_lt h.front_lt).symm, ?_⟩
  show 0 + (0 + 0) + 0 + 1 < b.size
  omega

/-- The slot behind the last element is free. -/
theorem Sound.free (h : b.Sound taken held []) : b.data b.tail = none := by
  have hroom := h.holds.room
  rwa [List.append_nil, Nat.add_assoc, ← h.tail] at hroom

/-- An element is constructed there. -/
theorem Sound.construct (h : b.Sound taken held [])
    (hroom : taken + held.length + 1 < b.size) :
    ({ b with data := Function.update b.data b.tail (Option.some x) } : Block α).Sound
      taken held [x] := by
  refine ⟨h.size, h.front_lt, h.tail, hroom, ?_⟩
  have hheld : Holds b.size b.data (b.front + taken) held := by
    simpa using h.holds
  have hpush := hheld.push (x := x) (by omega)
  rwa [Nat.add_assoc, ← h.tail] at hpush

theorem FrontSeen.fits (h : b.FrontSeen taken held [] 1) : taken + held.length + 1 < b.size := by
  obtain ⟨n, -, -, hfits⟩ := h
  simp only [List.length_nil] at hfits
  omega

/-- It becomes one of those held when `tail` is moved on. -/
theorem Sound.publish (h : b.Sound taken held [x]) :
    ({ b with tail := (b.tail + 1) &&& b.sizeMask } : Block α).Sound taken (held ++ [x]) [] := by
  refine ⟨h.size, h.front_lt, ?_, ?_, ?_⟩
  · show (b.tail + 1) &&& b.sizeMask = (b.front + (taken + (held ++ [x]).length)) % b.size
    rw [h.next, h.tail, Nat.mod_add_mod, List.length_append, List.length_singleton]
    simp only [Nat.add_assoc]
  · have hfits := h.fits
    simp only [List.length_append, List.length_singleton, List.length_nil] at hfits ⊢
    exact hfits
  · rw [List.append_nil]
    exact h.holds

theorem FrontSeen.construct {d : ℕ → Option α} (h : b.FrontSeen taken held [] 1) :
    ({ b with data := d } : Block α).FrontSeen taken held [x] 0 := by
  obtain ⟨n, hlt, hfront, hfits⟩ := h
  exact ⟨n, hlt, hfront, hfits⟩

theorem FrontSeen.publish {i : ℕ} (h : b.FrontSeen taken held [x] 0) :
    ({ b with tail := i } : Block α).FrontSeen taken (held ++ [x]) [] 0 := by
  obtain ⟨n, hlt, hfront, hfits⟩ := h
  refine ⟨n, hlt, hfront, ?_⟩
  show n + (taken + (held ++ [x]).length) + 0 + 0 < b.size
  rw [List.length_append, List.length_singleton]
  rw [List.length_singleton] at hfits
  omega

/-- What the producer does leaves `localTail` as good as it was. -/
theorem TailSeen.append {b' : Block α} {xs : List α} (h : b.TailSeen taken held low)
    (hfront : b'.front = b.front) (hlocal : b'.localTail = b.localTail)
    (hmask : b'.sizeMask = b.sizeMask) : b'.TailSeen taken (held ++ xs) low := by
  obtain ⟨n, hlow, hn, heq⟩ := h
  refine ⟨n, hlow, ?_, ?_⟩
  · rw [List.length_append]
    omega
  · rw [hlocal, hfront, heq, size, size, hmask]

/-- The first element is in the slot at `front`. -/
theorem Sound.first (h : b.Sound 0 (x :: held) built) : b.data b.front = Option.some x := by
  have hfirst := h.holds.first
  rwa [Nat.add_zero, Nat.mod_eq_of_lt h.front_lt] at hfirst

/-- It is moved out. -/
theorem Sound.take (h : b.Sound 0 (x :: held) built) :
    ({ b with data := Function.update b.data b.front none } : Block α).Sound 1 held built := by
  refine ⟨h.size, h.front_lt, ?_, ?_, ?_⟩
  · have htail := h.tail
    rw [List.length_cons, Nat.zero_add, Nat.add_comm held.length 1] at htail
    exact htail
  · have hfits := h.fits
    rw [List.length_cons, Nat.zero_add] at hfits
    show 1 + held.length + built.length < b.size
    omega
  · have hpop := h.holds.pop
    rw [Nat.add_zero, Nat.mod_eq_of_lt h.front_lt] at hpop
    refine ⟨hpop.1, fun j hj => ?_⟩
    have hj := hpop.2 j hj
    rwa [Nat.mod_add_mod] at hj

theorem TailSeen.take {held' : List α} {d : ℕ → Option α}
    (h : b.TailSeen 0 (x :: held') 1) :
    ({ b with data := d } : Block α).TailSeen 1 held' 0 := by
  obtain ⟨n, hlow, hn, heq⟩ := h
  rw [List.length_cons] at hn
  refine ⟨n - 1, Nat.zero_le _, by omega, ?_⟩
  show b.localTail = (b.front + (1 + (n - 1))) % b.size
  rw [heq, Nat.zero_add, Nat.add_sub_cancel' hlow]

theorem FrontSeen.take {held' : List α} {d : ℕ → Option α}
    (h : b.FrontSeen 0 (x :: held') built room) :
    ({ b with data := d } : Block α).FrontSeen 1 held' built room := by
  obtain ⟨n, hlt, hfront, hfits⟩ := h
  rw [List.length_cons] at hfits
  refine ⟨n, hlt, hfront, ?_⟩
  show n + (1 + held'.length) + built.length + room < b.size
  omega

/-- Its slot is given back when `front` is moved on. -/
theorem Sound.release (h : b.Sound 1 held built) :
    ({ b with front := (b.front + 1) &&& b.sizeMask } : Block α).Sound 0 held built := by
  have hnext := h.next b.front
  refine ⟨h.size, ?_, ?_, ?_, ?_⟩
  · show (b.front + 1) &&& b.sizeMask < b.size
    rw [hnext]
    exact Nat.mod_lt _ b.size_pos
  · show b.tail = (((b.front + 1) &&& b.sizeMask) + (0 + held.length)) % b.size
    rw [hnext, Nat.mod_add_mod, h.tail, Nat.zero_add, Nat.add_assoc]
  · have hfits := h.fits
    show 0 + held.length + built.length < b.size
    omega
  · refine ⟨h.holds.1, fun j hj => ?_⟩
    show b.data ((((b.front + 1) &&& b.sizeMask) + 0 + j) % b.size) = _
    rw [hnext, Nat.add_zero, Nat.mod_add_mod]
    exact h.holds.2 j hj

theorem TailSeen.release (h : b.TailSeen 1 held low) (hs : b.Sound 1 held built) :
    ({ b with front := (b.front + 1) &&& b.sizeMask } : Block α).TailSeen 0 held low := by
  obtain ⟨n, hlow, hn, heq⟩ := h
  refine ⟨n, hlow, hn, ?_⟩
  show b.localTail = (((b.front + 1) &&& b.sizeMask) + (0 + n)) % b.size
  rw [hs.next, Nat.mod_add_mod, heq, Nat.zero_add, Nat.add_assoc]

theorem FrontSeen.release {built' : List α} (h : b.FrontSeen 1 held built room)
    (hs : b.Sound 1 held built') :
    ({ b with front := (b.front + 1) &&& b.sizeMask } : Block α).FrontSeen 0 held built room := by
  obtain ⟨n, hlt, hfront, hfits⟩ := h
  refine ⟨n + 1, hlt, ?_, ?_⟩
  · show (b.front + 1) &&& b.sizeMask = (b.localFront + (n + 1)) % b.size
    rw [hs.next, hfront, Nat.mod_add_mod, Nat.add_assoc]
  · show n + 1 + (0 + held.length) + built.length + room < b.size
    omega

end Block

end Queue

end AppServer
