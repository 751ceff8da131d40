import AppServer.Lib.Ranking
import AppServer.Queue.Fifo

/-!
# Room for as many elements as were asked for

The constructor promises room for `maxSize` elements "without further
allocations". That is not the size of the blocks alone: a block the consumer
has half emptied keeps its free slots from the producer until it is all
empty, and the one block more that is reserved makes up for it. The invariant
`Roomy` has the sizes of the blocks and which of them are full; with it a
call allocates, or `try_enqueue` returns `false`, only if `maxSize` elements
were in the queue when it began (`capacity`).
-/

namespace AppServer

namespace Queue

open Lib

variable {α : Type*} {maxBlockSize : ℕ} {s s' : State α} {a : Action α}
  {used spare used' spare' : List BlockPtr} {held held' : BlockPtr → List α} {p q : BlockPtr}
  {b : Block α} {n note : ℕ}

/-! ## Sizes -/

/-- The elements a block can hold: one slot is left free. -/
def State.slots (s : State α) (p : BlockPtr) : ℕ :=
  match s.heap p with
  | some b => b.sizeMask
  | none => 0

/-- The elements some blocks can hold. -/
def State.total (s : State α) : List BlockPtr → ℕ
  | [] => 0
  | p :: l => s.slots p + s.total l

theorem State.slots_eq (h : s.heap p = some b) : s.slots p = b.sizeMask := by
  rw [State.slots, h]

theorem State.slots_congr (h : s'.heap p = s.heap p) : s'.slots p = s.slots p := by
  rw [State.slots, State.slots, h]

theorem State.total_append {l m : List BlockPtr} :
    s.total (l ++ m) = s.total l + s.total m := by
  induction l with
  | nil => exact (Nat.zero_add _).symm
  | cons p l ih =>
    show s.slots p + s.total (l ++ m) = s.slots p + s.total l + s.total m
    rw [ih, Nat.add_assoc]

theorem State.total_congr {l : List BlockPtr} (h : ∀ p ∈ l, s'.slots p = s.slots p) :
    s'.total l = s.total l := by
  induction l with
  | nil => rfl
  | cons p l ih =>
    show s'.slots p + s'.total l = s.slots p + s.total l
    rw [h p List.mem_cons_self, ih fun q hq => h q (List.mem_cons_of_mem p hq)]

/-- Full blocks hold all they can. -/
theorem State.total_eq_length {l : List BlockPtr} (h : ∀ p ∈ l, (held p).length = s.slots p) :
    s.total l = (l.flatMap held).length := by
  induction l with
  | nil => rfl
  | cons p l ih =>
    rw [List.flatMap_cons, List.length_append, h p List.mem_cons_self,
      ← ih fun q hq => h q (List.mem_cons_of_mem p hq)]
    rfl

theorem slots_update {b' : Block α} (hb : s.heap q = some b)
    (hheap : s'.heap = Function.update s.heap q (some b')) (hmask : b'.sizeMask = b.sizeMask) :
    s'.slots p = s.slots p := by
  by_cases hp : p = q
  · subst hp
    rw [State.slots_eq hb, ← hmask]
    exact State.slots_eq (by rw [hheap, Function.update_self])
  · exact State.slots_congr (by rw [hheap, Function.update_of_ne hp])

/-- The consumer changes the size of no block. -/
theorem ConsumerStep.slots (h : ConsumerStep s a s') (p : BlockPtr) : s'.slots p = s.slots p := by
  cases h with
  | readElement hpc hb hne => exact slots_update hb rfl rfl
  | readEmpty hpc hb heq => exact slots_update hb rfl rfl
  | rereadElement hpc hb hne => exact slots_update hb rfl rfl
  | rereadEmpty hpc hb heq => exact slots_update hb rfl rfl
  | readNextTail hpc hb hne hop => exact slots_update hb rfl rfl
  | take hpc hb hx => exact slots_update hb rfl rfl
  | storeFront hpc hb => exact slots_update hb rfl rfl
  | _ => rfl

/-- Nor does the producer. It makes one block at most, which is not smaller
than the largest there was. -/
theorem ProducerStep.slots (h : ProducerStep maxBlockSize s a s') :
    (∀ p b, s.heap p = some b → s'.slots p = s.slots p) ∧
      s.largestBlockSize ≤ s'.largestBlockSize ∧
      ∀ q, s'.producer.fresh = some q → 0 < s.largestBlockSize →
        s'.slots q + 1 = s'.largestBlockSize := by
  have hsame : ∀ {q : BlockPtr} {b b' : Block α} {t : State α}, s.heap q = some b →
      t.heap = Function.update s.heap q (some b') → b'.sizeMask = b.sizeMask →
      ∀ p b, s.heap p = some b → t.slots p = s.slots p :=
    fun hb hheap hmask p _ _ => slots_update hb hheap hmask
  have hno : ∀ {t : State α}, t.producer.fresh = none → ∀ q, t.producer.fresh = some q →
      0 < s.largestBlockSize → t.slots q + 1 = t.largestBlockSize := by
    intro t hnone q hq
    rw [hnone] at hq
    cases hq
  cases h with
  | callRoom hpc hb hroom => exact ⟨fun _ _ _ => rfl, le_refl _, hno rfl⟩
  | callFull hpc hb hfull => exact ⟨fun _ _ _ => rfl, le_refl _, hno rfl⟩
  | readRoom hpc hb hroom => exact ⟨hsame hb rfl rfl, le_refl _, hno rfl⟩
  | readFull hpc hb hfull => exact ⟨hsame hb rfl rfl, le_refl _, hno rfl⟩
  | construct hpc hb hfree => exact ⟨hsame hb rfl rfl, le_refl _, hno rfl⟩
  | storeTail hpc hb => exact ⟨hsame hb rfl rfl, le_refl _, hno rfl⟩
  | goAhead hpc hb hfree => exact ⟨fun _ _ _ => rfl, le_refl _, hno rfl⟩
  | goAllocate hpc hb hring => exact ⟨fun _ _ _ => rfl, le_refl _, hno rfl⟩
  | refuse hpc hb hring => exact ⟨fun _ _ _ => rfl, le_refl _, hno rfl⟩
  | readNextFront hpc hb heq => exact ⟨hsame hb rfl rfl, le_refl _, hno rfl⟩
  | constructNext hpc hb hfree => exact ⟨hsame hb rfl rfl, le_refl _, hno rfl⟩
  | storeNextTail hpc hb => exact ⟨hsame hb rfl rfl, le_refl _, hno rfl⟩
  | noMemory hpc => exact ⟨fun _ _ _ => rfl, le_refl _, hno rfl⟩
  | @allocate m x p b hpc hb hm hnew =>
    have hlarge : s.largestBlockSize ≤ newBlockSize maxBlockSize s.largestBlockSize := by
      rw [newBlockSize]
      split
      · exact le_refl _
      · omega
    refine ⟨fun q b' hq => ?_, hlarge, fun q hq hpos => ?_⟩
    · have hqm : q ≠ m := by
        rintro rfl
        rw [hnew] at hq
        cases hq
      exact State.slots_congr (Function.update_of_ne hqm _ _)
    · obtain rfl := Option.some.inj hq
      rw [State.slots_eq (Function.update_self m _ s.heap)]
      exact Nat.sub_add_cancel (hpos.trans_le hlarge)
  | linkNext hpc hb => exact ⟨hsame hb rfl rfl, le_refl _, hno rfl⟩
  | storeTailBlock hpc => exact ⟨fun _ _ _ => rfl, le_refl _, hno rfl⟩

/-- What a block of the circle holds fits into it. -/
theorem Core.length_le (h : Core s used spare held) (hp : p ∈ used ++ spare) :
    s.consumer.taken p + (held p).length ≤ s.slots p := by
  obtain ⟨b, hb, hs⟩ := h.block p hp
  have hfits := hs.fits
  rw [State.slots_eq hb]
  rw [Block.size] at hfits
  omega

/-- The test for full. -/
theorem Block.Sound.full {taken : ℕ} {xs : List α} (h : b.Sound taken xs [])
    (hfull : (b.tail + 1) &&& b.sizeMask = b.front) : taken + xs.length = b.sizeMask := by
  have hfits := h.fits
  simp only [List.length_nil, Nat.add_zero] at hfits
  rw [h.next, h.tail, CircularBuffer.next_eq_iff h.front_lt hfits, Block.size] at hfull
  omega

/-! ## The invariant -/

/-- The producer has found the tail block full, and leaves it. -/
def ProducerPc.leaving : ProducerPc α → Bool
  | .readFrontBlock .. => true
  | .readNextFront .. => true
  | .constructNext .. => true
  | .storeNextTail .. => true
  | .allocate .. => true
  | .linkNext .. => true
  | .storeTailBlock .. => true
  | _ => false

/-- The producer has found no room anywhere: it allocates, or has given up. -/
def ProducerPc.outOfRoom : ProducerPc α → Bool
  | .allocate .. => true
  | .returned success => !success
  | _ => false

/-- The monitor: how many elements had been taken out when the producer's
call began. -/
def noteRemoved (s : State α) (note : ℕ) (a : Action α) : ℕ :=
  match a with
  | .tryEnqueue _ => s.removed.length
  | .enqueue _ => s.removed.length
  | _ => note

/-- **Which blocks are full**, and that all but any one of them would do. -/
structure Roomy (n : ℕ) (s : State α) (note : ℕ) (used spare : List BlockPtr)
    (held : BlockPtr → List α) : Prop where
  noted : note ≤ s.removed.length
  largest : ∀ p ∈ used ++ spare, s.slots p < s.largestBlockSize
  fresh : ∀ q, s.producer.fresh = some q → s.slots q + 1 = s.largestBlockSize
  enough : ∀ f ∈ used ++ spare, n + s.slots f ≤ s.total (used ++ spare) ∨
    used ++ spare = [f] ∧ n ≤ s.slots f
  full : ∀ p ∈ used, p ≠ s.frontBlock → p ≠ s.tailBlock → (held p).length = s.slots p
  leaving : s.producer.leaving = true →
    (s.tailBlock ≠ s.frontBlock → (held s.tailBlock).length = s.slots s.tailBlock) ∧
      note + s.slots s.tailBlock ≤ s.accepted.length
  outOfRoom : s.producer.outOfRoom = true → note + n ≤ s.accepted.length

/-! ## The steps of the consumer -/

theorem ConsumerStep.noteRemoved_eq (h : ConsumerStep s a s') : noteRemoved s note a = note := by
  cases h with
  | @callElement op b hpc hb hne =>
    cases op with
    | _ => rfl
  | @callEmpty op b hpc hb heq =>
    cases op with
    | _ => rfl
  | _ => rfl

/-- The consumer leaves the circle as it is, but for where it is cut. -/
theorem ConsumerMove.ring (h : ConsumerMove s s' used spare used' spare' held held') :
    (∀ p, p ∈ used' ++ spare' ↔ p ∈ used ++ spare) ∧
      s.total (used' ++ spare') = s.total (used ++ spare) ∧
      ∀ f, used ++ spare = [f] → used' ++ spare' = [f] := by
  rcases h.shift with ⟨-, rfl, rfl⟩ | ⟨rfl, rfl⟩
  · exact ⟨fun _ => Iff.rfl, rfl, fun _ h => h⟩
  · refine ⟨fun p => ?_, ?_, fun f hf => ?_⟩
    · simp only [List.mem_append, List.mem_cons, List.not_mem_nil, or_false]
      constructor
      · rintro (hp | hp | hp)
        · exact Or.inl (Or.inr hp)
        · exact Or.inr hp
        · exact Or.inl (Or.inl hp)
      · rintro ((hp | hp) | hp)
        · exact Or.inr (Or.inr hp)
        · exact Or.inl hp
        · exact Or.inr (Or.inl hp)
    · rw [State.total_append, State.total_append, List.cons_append]
      show _ + (s.total spare + (s.slots s.frontBlock + 0)) = s.slots s.frontBlock + s.total _
      rw [State.total_append]
      omega
    · obtain ⟨rfl, hnil⟩ := List.cons.inj hf
      obtain ⟨rfl, rfl⟩ := List.append_eq_nil_iff.1 hnil
      rfl

theorem Roomy.consumerStep (h : Roomy n s note used spare held) (hs : ConsumerStep s a s')
    (hcore : Core s used spare held) (hcore' : Core s' used' spare' held')
    (hm : ConsumerMove s s' used spare used' spare' held held') :
    Roomy n s' (noteRemoved s note a) used' spare' held' := by
  obtain ⟨hmem, htotal, hone⟩ := hm.ring
  have hslots : ∀ p, s'.slots p = s.slots p := hs.slots
  -- the front block moves on only, and only towards the tail block
  have hbehind : ∀ p ∈ used', p ≠ s'.frontBlock → p ∈ used ∧ p ≠ s.frontBlock := by
    intro p hp hne
    refine ⟨hm.used_subset p hp, ?_⟩
    rcases hm.shift with ⟨hfront, -, -⟩ | ⟨hused, -⟩
    · rwa [← hfront]
    · rintro rfl
      have hnd : used.Nodup := (List.nodup_append.1 hcore.nodup).1
      rw [hused] at hnd
      exact (List.nodup_cons.1 hnd).1 hp
  rw [hs.noteRemoved_eq]
  refine ⟨h.noted.trans hm.removed.length_le, ?_, ?_, ?_, ?_, ?_, ?_⟩
  · intro p hp
    rw [hslots, hm.largest]
    exact h.largest p ((hmem p).1 hp)
  · intro q hq
    rw [hm.producer] at hq
    rw [hslots, hm.largest]
    exact h.fresh q hq
  · intro f hf
    rw [hslots, State.total_congr fun p _ => hslots p, htotal]
    exact (h.enough f ((hmem f).1 hf)).imp_right fun hring => ⟨hone f hring.1, hring.2⟩
  · intro p hp hfront htail
    obtain ⟨hpu, hpf⟩ := hbehind p hp hfront
    rw [hm.settled p hpf, hslots]
    exact h.full p hpu hpf (by rwa [← hm.tailBlock])
  · intro hpc
    rw [hm.producer] at hpc
    obtain ⟨hfull, hle⟩ := h.leaving hpc
    rw [hm.accepted, hslots, hm.tailBlock]
    refine ⟨fun hne => ?_, hle⟩
    obtain ⟨-, hpf⟩ := hbehind s.tailBlock (hm.tailBlock ▸ hcore'.tail_mem) hne
    rw [hm.settled _ hpf]
    exact hfull hpf
  · intro hpc
    rw [hm.producer] at hpc
    rw [hm.accepted]
    exact h.outOfRoom hpc

/-! ## The steps of the producer -/

/-- It leaves the tail block when it has found it full. -/
theorem ProducerStep.leaving (h : ProducerStep maxBlockSize s a s')
    (hpc : s'.producer.leaving = true) :
    (∃ m, a = .produce m) ∧ s'.tailBlock = s.tailBlock ∧ s'.accepted = s.accepted ∧
      (s.producer.leaving = true ∨ ∃ mode x p i j b, s.producer = .readFront mode x p i j ∧
        s.heap p = some b ∧ j = b.front) := by
  cases h with
  | readFull hq hb hfull =>
    exact ⟨⟨_, rfl⟩, rfl, rfl, Or.inr ⟨_, _, _, _, _, _, hq, hb, hfull⟩⟩
  | goAhead hq hb hfree => exact ⟨⟨_, rfl⟩, rfl, rfl, Or.inl (by rw [hq]; rfl)⟩
  | goAllocate hq hb hring => exact ⟨⟨_, rfl⟩, rfl, rfl, Or.inl (by rw [hq]; rfl)⟩
  | readNextFront hq hb heq => exact ⟨⟨_, rfl⟩, rfl, rfl, Or.inl (by rw [hq]; rfl)⟩
  | constructNext hq hb hfree => exact ⟨⟨_, rfl⟩, rfl, rfl, Or.inl (by rw [hq]; rfl)⟩
  | storeNextTail hq hb => exact ⟨⟨_, rfl⟩, rfl, rfl, Or.inl (by rw [hq]; rfl)⟩
  | allocate hq hb hm hnew => exact ⟨⟨_, rfl⟩, rfl, rfl, Or.inl (by rw [hq]; rfl)⟩
  | linkNext hq hb => exact ⟨⟨_, rfl⟩, rfl, rfl, Or.inl (by rw [hq]; rfl)⟩
  | _ => cases hpc

/-- It is out of room when it has found the front block behind the tail
block. -/
theorem ProducerStep.outOfRoom (h : ProducerStep maxBlockSize s a s')
    (hpc : s'.producer.outOfRoom = true) :
    (∃ m, a = .produce m) ∧ s'.accepted = s.accepted ∧
      (s.producer.outOfRoom = true ∨ ∃ mode x p b, s.producer = .readFrontBlock mode x p ∧
        s.heap p = some b ∧ b.next = s.frontBlock) := by
  cases h with
  | goAllocate hq hb hring => exact ⟨⟨_, rfl⟩, rfl, Or.inr ⟨_, _, _, _, hq, hb, hring⟩⟩
  | refuse hq hb hring => exact ⟨⟨_, rfl⟩, rfl, Or.inr ⟨_, _, _, _, hq, hb, hring⟩⟩
  | noMemory hq => exact ⟨⟨_, rfl⟩, rfl, Or.inl (by rw [hq]; rfl)⟩
  | _ => cases hpc

theorem ConsumerPc.taken_le (pc : ConsumerPc α) (p : BlockPtr) :
    pc.taken p ≤ pc.inFlight.length := by
  cases pc with
  | storeFront op q i x =>
    show (if p = q then 1 else 0) ≤ 1
    split
    · exact le_refl 1
    · exact Nat.zero_le 1
  | _ => exact Nat.zero_le _

/-- What is in a block, and what the consumer has in hand, was put in and is
not yet taken out. -/
theorem Core.removed_add_le (h : Core s used spare held) (hp : p ∈ used) :
    s.removed.length + (s.consumer.taken p + (held p).length) ≤ s.accepted.length := by
  have htaken := s.consumer.taken_le p
  obtain ⟨l, m, rfl⟩ := List.append_of_mem hp
  rw [h.history]
  simp only [List.flatMap_append, List.flatMap_cons, List.length_append]
  omega

/-- **With no room anywhere `n` elements are in the queue.** -/
theorem Roomy.all_full (h : Roomy n s note used spare held) (hcore : Core s used spare held)
    (hleaving : s.producer.leaving = true) (hring : s.next s.tailBlock = s.frontBlock) :
    note + n ≤ s.accepted.length := by
  obtain ⟨hfull, hle⟩ := h.leaving hleaving
  have hspare : spare = [] := by
    rcases hcore.next_tail with ⟨hnil, -⟩ | ⟨q, l, -, hq, hne⟩
    · exact hnil
    · exact absurd (hq.symm.trans hring) hne
  obtain ⟨l, hl⟩ := hcore.exists_cons
  have hnd : used.Nodup := (List.nodup_append.1 hcore.nodup).1
  rw [hl] at hnd
  rcases h.enough _ hcore.front_mem_ring with henough | ⟨hone, henough⟩
  · rw [hspare, List.append_nil, hl] at henough
    have hall : ∀ p ∈ l, (held p).length = s.slots p := by
      intro p hp
      have hpf : p ≠ s.frontBlock := fun he => (List.nodup_cons.1 hnd).1 (he ▸ hp)
      by_cases hpt : p = s.tailBlock
      · subst hpt
        exact hfull hpf
      · exact h.full p (by rw [hl]; exact List.mem_cons_of_mem _ hp) hpf hpt
    have htotal := State.total_eq_length hall
    have hlen : n ≤ (l.flatMap held).length := by
      have hcons : s.total (s.frontBlock :: l) = s.slots s.frontBlock + s.total l := rfl
      omega
    have hnoted := h.noted
    rw [hcore.history, hl, List.flatMap_cons]
    simp only [List.length_append]
    omega
  · have htail : s.tailBlock = s.frontBlock := by
      have hmem := hcore.tail_mem
      rw [hspare, List.append_nil] at hone
      rw [hone] at hmem
      exact List.mem_singleton.1 hmem
    rw [htail] at hle
    omega

/-- The circle with one more block, not smaller than any of the others. -/
theorem Roomy.enough_insert (h : Roomy n s note used spare held) (hcore : Core s used spare held)
    (hq : ∀ p ∈ used ++ spare, s.slots p ≤ s.slots q) :
    ∀ f ∈ used ++ q :: spare, n + s.slots f ≤ s.total (used ++ q :: spare) := by
  have htotal : s.total (used ++ q :: spare) = s.total (used ++ spare) + s.slots q := by
    rw [State.total_append, State.total_append]
    show s.total used + (s.slots q + s.total spare) = _
    omega
  intro f hf
  rw [htotal]
  have hf : f = q ∨ f ∈ used ++ spare := by
    simpa only [List.mem_append, List.mem_cons, or_left_comm] using hf
  rcases hf with rfl | hf
  · rcases h.enough _ hcore.front_mem_ring with henough | ⟨hone, henough⟩
    · omega
    · have hsum : s.total (used ++ spare) = s.slots s.frontBlock + 0 := by
        rw [hone]
        rfl
      omega
  · rcases h.enough f hf with henough | ⟨hone, henough⟩
    · omega
    · have hsum : s.total (used ++ spare) = s.slots f + 0 := by
        rw [hone]
        rfl
      have hle := hq f hf
      omega

/-- The circle stays as it is but for where it is cut, or is one block larger. -/
theorem ProducerMove.ring (hm : ProducerMove s s' used spare used' spare' held held')
    (hs : ProducerStep maxBlockSize s a s') (hat : ProducerAt s used spare held s.producer)
    (h : Roomy n s note used spare held) :
    used' ++ spare' = used ++ spare ∨ ∃ q, used' = used ∧ spare' = q :: spare ∧
      s'.slots q = s.slots q ∧ s.slots q + 1 = s.largestBlockSize := by
  obtain ⟨hsame, -, -⟩ := hs.slots
  rcases hm.shift with ⟨-, rfl, rfl⟩ | ⟨x, q, hpc, -, rfl, rfl⟩ | ⟨x, q, -, rfl, rfl⟩
  · exact Or.inl rfl
  · rw [hpc] at hat
    obtain ⟨-, -, b, hb, -⟩ := hat
    exact Or.inr ⟨q, rfl, rfl, hsame q b hb, h.fresh q (by rw [hpc]; rfl)⟩
  · exact Or.inl (List.append_assoc _ _ _)

theorem ProducerStep.slots_ring (hs : ProducerStep maxBlockSize s a s')
    (hcore : Core s used spare held) (hp : p ∈ used ++ spare) : s'.slots p = s.slots p := by
  obtain ⟨b, hb, -⟩ := hcore.block p hp
  exact hs.slots.1 p b hb

/-- A block that a larger circle holds is the new one or an old one. -/
theorem mem_ring_insert (hp : p ∈ used ++ q :: spare) : p = q ∨ p ∈ used ++ spare := by
  simpa only [List.mem_append, List.mem_cons, or_left_comm] using hp

/-- A full block stays full. -/
theorem Core.stays_full (hcore : Core s used spare held) (hcore' : Core s' used' spare' held')
    (hs : ProducerStep maxBlockSize s a s')
    (hm : ProducerMove s s' used spare used' spare' held held') (hp : p ∈ used) (hp' : p ∈ used')
    (hfull : (held p).length = s.slots p) : (held' p).length = s'.slots p := by
  have hle := hcore'.length_le (List.mem_append_left _ hp')
  obtain ⟨xs, hxs⟩ := hm.filled p hp
  have hslot := hs.slots_ring hcore (List.mem_append_left _ hp)
  rw [hxs, List.length_append] at hle ⊢
  omega

theorem Roomy.noted_producerStep (h : Roomy n s note used spare held)
    (hm : ProducerMove s s' used spare used' spare' held held') :
    noteRemoved s note a ≤ s'.removed.length := by
  rw [hm.removed]
  cases a with
  | tryEnqueue x => exact le_refl _
  | enqueue x => exact le_refl _
  | _ => exact h.noted

theorem Roomy.largest_producerStep (h : Roomy n s note used spare held)
    (hs : ProducerStep maxBlockSize s a s') (hcore : Core s used spare held)
    (hat : ProducerAt s used spare held s.producer)
    (hm : ProducerMove s s' used spare used' spare' held held') :
    ∀ p ∈ used' ++ spare', s'.slots p < s'.largestBlockSize := by
  intro p hp
  refine lt_of_lt_of_le ?_ hs.slots.2.1
  rcases hm.ring hs hat h with hring | ⟨q, rfl, rfl, hq, hlarge⟩
  · rw [hring] at hp
    rw [hs.slots_ring hcore hp]
    exact h.largest p hp
  · rcases mem_ring_insert hp with rfl | hp
    · rw [hq]
      omega
    · rw [hs.slots_ring hcore hp]
      exact h.largest p hp

/-- The blocks without any one of them still hold `n`: there is one block more
to choose from, if anything. -/
theorem Roomy.enough_producerStep (h : Roomy n s note used spare held)
    (hs : ProducerStep maxBlockSize s a s') (hcore : Core s used spare held)
    (hat : ProducerAt s used spare held s.producer)
    (hm : ProducerMove s s' used spare used' spare' held held') :
    ∀ f ∈ used' ++ spare', n + s'.slots f ≤ s'.total (used' ++ spare') ∨
      used' ++ spare' = [f] ∧ n ≤ s'.slots f := by
  intro f hf
  have hslots : ∀ p ∈ used ++ spare, s'.slots p = s.slots p :=
    fun _ hp => hs.slots_ring hcore hp
  rcases hm.ring hs hat h with hring | ⟨q, rfl, rfl, hq, hlarge⟩
  · rw [hring] at hf ⊢
    rw [hslots f hf, State.total_congr hslots]
    exact h.enough f hf
  · have hslots' : ∀ p ∈ used' ++ q :: spare, s'.slots p = s.slots p := by
      intro p hp
      rcases mem_ring_insert hp with rfl | hp
      · exact hq
      · exact hslots p hp
    rw [hslots' f hf, State.total_congr hslots']
    refine Or.inl (h.enough_insert hcore (fun p hp => ?_) f hf)
    have hlt := h.largest p hp
    omega

/-- The blocks between the front and the tail are full: the producer goes on
from the tail block only when that is. -/
theorem Roomy.full_producerStep (h : Roomy n s note used spare held)
    (hs : ProducerStep maxBlockSize s a s') (hcore : Core s used spare held)
    (hcore' : Core s' used' spare' held')
    (hm : ProducerMove s s' used spare used' spare' held held') :
    ∀ p ∈ used', p ≠ s'.frontBlock → p ≠ s'.tailBlock → (held' p).length = s'.slots p := by
  intro p hp hfront htail
  rw [hm.frontBlock] at hfront
  have hold : p ∈ used ∧ (p = s.tailBlock → s.producer.leaving = true) := by
    rcases hm.shift with ⟨htb, rfl, -⟩ | ⟨x, q, -, htb, rfl, -⟩ | ⟨x, q, hpc, rfl, -⟩
    · exact ⟨hp, fun he => absurd (he.trans htb.symm) htail⟩
    · exact ⟨hp, fun he => absurd (he.trans htb.symm) htail⟩
    · have hlast := hcore'.last
      rw [List.getLast?_append, List.getLast?_singleton] at hlast
      have hq : q = s'.tailBlock := Option.some.inj hlast
      refine ⟨?_, fun _ => by rw [hpc]; rfl⟩
      rcases List.mem_append.1 hp with hp | hp
      · exact hp
      · exact absurd ((List.mem_singleton.1 hp).trans hq) htail
  refine hcore.stays_full hcore' hs hm hold.1 hp ?_
  by_cases hpt : p = s.tailBlock
  · subst hpt
    exact (h.leaving (hold.2 rfl)).1 hfront
  · exact h.full p hold.1 hfront hpt

/-- The tail block that the producer leaves is full, whether it found that out
just now or before. -/
theorem Roomy.tail_full (h : Roomy n s note used spare held)
    (hs : ProducerStep maxBlockSize s a s') (hcore : Core s used spare held)
    (hat : ProducerAt s used spare held s.producer) (hcons : ConsumerAt s used held s.consumer)
    (hpc : s'.producer.leaving = true) :
    (s.tailBlock ≠ s.frontBlock → (held s.tailBlock).length = s.slots s.tailBlock) ∧
      note + s.slots s.tailBlock ≤ s.accepted.length := by
  obtain ⟨-, -, -, hwas⟩ := hs.leaving hpc
  rcases hwas with hwas | ⟨mode, x, p, i, j, b, hread, hb, hfull⟩
  · exact h.leaving hwas
  · rw [hread] at hat
    obtain ⟨rfl, hij⟩ := hat
    rw [(hij b hb).2] at hfull
    have hbs := hcore.sound hcore.tail_mem_ring hb
    rw [hread] at hbs
    have hlen : s.consumer.taken s.tailBlock + (held s.tailBlock).length = s.slots s.tailBlock :=
      (Block.Sound.full hbs hfull).trans (State.slots_eq hb).symm
    have hin := hcore.removed_add_le hcore.tail_mem
    have hnoted := h.noted
    refine ⟨fun hne => ?_, by omega⟩
    rwa [hcons.taken_of_ne hne, Nat.zero_add] at hlen

theorem Roomy.leaving_producerStep (h : Roomy n s note used spare held)
    (hs : ProducerStep maxBlockSize s a s') (hcore : Core s used spare held)
    (hcore' : Core s' used' spare' held') (hat : ProducerAt s used spare held s.producer)
    (hcons : ConsumerAt s used held s.consumer)
    (hm : ProducerMove s s' used spare used' spare' held held')
    (hpc : s'.producer.leaving = true) :
    (s'.tailBlock ≠ s'.frontBlock → (held' s'.tailBlock).length = s'.slots s'.tailBlock) ∧
      noteRemoved s note a + s'.slots s'.tailBlock ≤ s'.accepted.length := by
  obtain ⟨⟨m, rfl⟩, htail, hacc, -⟩ := hs.leaving hpc
  obtain ⟨hfull, hle⟩ := h.tail_full hs hcore hat hcons hpc
  have hmem : s.tailBlock ∈ used' := htail ▸ hcore'.tail_mem
  rw [htail, hm.frontBlock]
  refine ⟨fun hne => hcore.stays_full hcore' hs hm hcore.tail_mem hmem (hfull hne), ?_⟩
  rw [hacc, hs.slots_ring hcore hcore.tail_mem_ring]
  exact hle

theorem Roomy.outOfRoom_producerStep (h : Roomy n s note used spare held)
    (hs : ProducerStep maxBlockSize s a s') (hcore : Core s used spare held)
    (hat : ProducerAt s used spare held s.producer) (hpc : s'.producer.outOfRoom = true) :
    noteRemoved s note a + n ≤ s'.accepted.length := by
  obtain ⟨⟨m, rfl⟩, hacc, hwas⟩ := hs.outOfRoom hpc
  rw [hacc]
  rcases hwas with hwas | ⟨mode, x, p, b, hread, hb, hnext⟩
  · exact h.outOfRoom hwas
  · rw [hread] at hat
    obtain rfl : p = s.tailBlock := hat
    refine h.all_full hcore (by rw [hread]; rfl) ?_
    rw [Core.next_eq hb, hnext]

theorem Roomy.producerStep (h : Roomy n s note used spare held)
    (hs : ProducerStep maxBlockSize s a s') (hcore : Core s used spare held)
    (hcore' : Core s' used' spare' held') (hat : ProducerAt s used spare held s.producer)
    (hcons : ConsumerAt s used held s.consumer)
    (hm : ProducerMove s s' used spare used' spare' held held') :
    Roomy n s' (noteRemoved s note a) used' spare' held' where
  noted := h.noted_producerStep hm
  largest := h.largest_producerStep hs hcore hat hm
  fresh := by
    intro q hq
    obtain ⟨e, he⟩ := hcore.largest
    refine hs.slots.2.2 q hq ?_
    rw [he]
    exact Nat.two_pow_pos _
  enough := h.enough_producerStep hs hcore hat hm
  full := h.full_producerStep hs hcore hcore' hm
  leaving := h.leaving_producerStep hs hcore hcore' hat hcons hm
  outOfRoom := h.outOfRoom_producerStep hs hcore hat

/-! ## Over a run -/

/-- **Enough blocks are reserved.** -/
theorem roomy_construct {maxBlockSize maxSize : UInt64} {mem : ℕ → BlockPtr}
    (h : construct maxBlockSize maxSize mem = some s) (hmax : maxBlockSize.toNat < 2 ^ 63) :
    ∃ f ps, Core s [f] ps (fun _ => []) ∧ Roomy maxSize.toNat s 0 [f] ps fun _ => [] := by
  obtain ⟨f, ps, c, hc, hs, hcore, hone, hmore⟩ := construct_core h hmax
  have hpos : 0 < s.largestBlockSize := by
    obtain ⟨e, he⟩ := hcore.largest
    rw [he]
    exact Nat.two_pow_pos _
  have hslots : ∀ p ∈ f :: ps, s.slots p + 1 = s.largestBlockSize := by
    intro p hp
    obtain ⟨next, hb⟩ := hc.block p hp
    have hb : s.heap p = some { makeBlock α s.largestBlockSize with next := next } := by
      rw [hs]
      exact hb
    rw [State.slots_eq hb]
    exact Nat.sub_add_cancel hpos
  have htotal : ∀ l, (∀ p ∈ l, p ∈ f :: ps) → s.total l = l.length * (s.largestBlockSize - 1) := by
    intro l
    induction l with
    | nil => exact fun _ => (Nat.zero_mul _).symm
    | cons p l ih =>
      intro hl
      have hp := hslots p (hl p List.mem_cons_self)
      rw [List.length_cons, Nat.succ_mul, ← ih fun q hq => hl q (List.mem_cons_of_mem p hq)]
      show s.slots p + s.total l = _
      omega
  refine ⟨f, ps, hcore, ⟨Nat.zero_le _, ?_, ?_, ?_, ?_, ?_, ?_⟩⟩
  · intro p hp
    have hp := hslots p hp
    omega
  · rw [hs]
    exact nofun
  · intro p hp
    have hp := hslots p hp
    by_cases hps : ps = []
    · subst hps
      obtain rfl := List.mem_singleton.1 ‹p ∈ [f] ++ []›
      have hlt := hone rfl
      exact Or.inr ⟨rfl, by omega⟩
    · have henough := hmore hps
      rw [List.singleton_append, htotal _ fun _ hq => hq, List.length_cons, Nat.succ_mul]
      exact Or.inl (by omega)
  · intro p hp hfront
    obtain rfl := List.mem_singleton.1 hp
    exact absurd (Option.some.inj hcore.head) hfront
  · rw [hs]
    exact nofun
  · rw [hs]
    exact nofun

/-- The shape of the queue, and which of its blocks are full, over a
monitored run. -/
theorem run_roomy {maxBlockSize maxSize : UInt64} {mem : ℕ → BlockPtr} {s₀ : State α}
    {as : List (Action α)} (h₀ : construct maxBlockSize maxSize mem = some s₀)
    (hmax : maxBlockSize.toNat < 2 ^ 63)
    (hrun : Run (monitored (step maxBlockSize.toNat) noteRemoved) anyStep (s₀, 0) as (s, note)) :
    ∃ used spare held, Core s used spare held ∧ ConsumerAt s used held s.consumer ∧
      ProducerAt s used spare held s.producer ∧ Roomy maxSize.toNat s note used spare held := by
  refine hrun.invariant (I := fun x => ∃ used spare held, Core x.1 used spare held ∧
    ConsumerAt x.1 used held x.1.consumer ∧ ProducerAt x.1 used spare held x.1.producer ∧
    Roomy maxSize.toNat x.1 x.2 used spare held) ?_ ?_
  · obtain ⟨f, ps, hcore, hroomy⟩ := roomy_construct h₀ hmax
    obtain ⟨-, -, c, -, hs, -⟩ := construct_core h₀ hmax
    refine ⟨[f], ps, _, hcore, ?_, ?_, hroomy⟩
    · rw [hs]
      trivial
    · rw [hs]
      trivial
  · rintro ⟨s, note⟩ a ⟨s', note'⟩ ⟨used, spare, held, hcore, hcons, hprod, hroomy⟩ - hs
    obtain ⟨hstep, hnote⟩ := monitored_eq_some.1 hs
    obtain rfl : note' = noteRemoved s note a := hnote
    rcases step_cases hstep with hstep | hstep
    · obtain ⟨used', spare', held', hcore', hprod', hmove⟩ := hstep.sound hcore hprod hcons
      exact ⟨used', spare', held', hcore', hcons.of_producerMove hcore hmove, hprod',
        hroomy.producerStep hstep hcore hcore' hprod hcons hmove⟩
    · obtain ⟨used', spare', held', hcore', hcons', hmove⟩ := hstep.sound hcore hcons hprod
      exact ⟨used', spare', held', hcore', hcons', hprod.of_consumerMove hcore hmove,
        hroomy.consumerStep hstep hcore hcore' hmove⟩

/-- The same of any state reached. -/
theorem Reachable.roomy {maxBlockSize : UInt64} (h : Reachable maxBlockSize s)
    (hmax : maxBlockSize.toNat < 2 ^ 63) :
    ∃ n note used spare held, Core s used spare held ∧ Roomy n s note used spare held := by
  obtain ⟨maxSize, mem, s₀, hs₀, as, hr⟩ := h
  obtain ⟨note, hrun⟩ : ∃ note, Run (monitored (Queue.step maxBlockSize.toNat) noteRemoved) anyStep
      (s₀, 0) as (s, note) := hr.exists_monitored 0
  obtain ⟨used, spare, held, hcore, -, -, hroomy⟩ := run_roomy hs₀ hmax hrun
  exact ⟨_, note, used, spare, held, hcore, hroomy⟩

/-- **Room for `maxSize` elements.** Where a call of `enqueue` comes to
`make_block`, or one of `try_enqueue` or `enqueue` returns `false`, at least
`maxSize` elements were in the queue when that call began: no more than
`note` had been taken out, and those of `accepted` put in. -/
theorem capacity {maxBlockSize maxSize : UInt64} {mem : ℕ → BlockPtr} {s₀ : State α}
    {as : List (Action α)} (h₀ : construct maxBlockSize maxSize mem = some s₀)
    (hmax : maxBlockSize.toNat < 2 ^ 63)
    (hrun : Run (monitored (step maxBlockSize.toNat) noteRemoved) anyStep (s₀, 0) as (s, note))
    (hpc : s.producer.outOfRoom = true) : note + maxSize.toNat ≤ s.accepted.length := by
  obtain ⟨used, spare, held, -, -, -, hroomy⟩ := run_roomy h₀ hmax hrun
  exact hroomy.outOfRoom hpc

/-- Four elements and a fifth, of which the first is taken out again, and then
a sixth. -/
def fullRun : List (Action ℕ) :=
  [.tryEnqueue 1, .produce 0, .produce 0] ++
    ([2, 3, 4, 5] : List ℕ).flatMap (fun x => .tryEnqueue x :: List.replicate 6 (.produce 0)) ++
    [.tryDequeue, .consume, .consume, .consume, .tryEnqueue 6, .produce 0, .produce 0]

/-- Five blocks of two slots, for four elements. With all full and the first
element taken out the first block is not given back yet, and there is no room
for another. -/
theorem capacity_four : ∃ (s₀ : State ℕ) (x : State ℕ × ℕ),
    construct 2 4 (fun i => i + 1) = some s₀ ∧
    Run (monitored (step (UInt64.toNat 2)) noteRemoved) anyStep (s₀, 0) fullRun x ∧
    (x.1.producer = .returned false ∧ x.1.accepted = [1, 2, 3, 4, 5] ∧ x.1.removed = [1]) ∧
    x.2 + UInt64.toNat 4 ≤ x.1.accepted.length := by
  obtain ⟨s₀, h₀, hexec⟩ : ∃ s₀ : State ℕ, construct 2 4 (fun i => i + 1) = some s₀ ∧
      (exec (guarded (monitored (step (UInt64.toNat 2)) noteRemoved) anyStep) (s₀, 0)
        fullRun).any (fun x => decide (x.1.producer = .returned false ∧
          x.1.accepted = [1, 2, 3, 4, 5] ∧ x.1.removed = [1])) = true :=
    ⟨_, rfl, by decide +kernel⟩
  obtain ⟨⟨s, note⟩, hrun, hP⟩ := Run.exists_of_exec hexec
  refine ⟨s₀, _, h₀, hrun, hP, capacity h₀ (by decide) hrun ?_⟩
  rw [show s.producer = _ from hP.1]
  rfl

end Queue

end AppServer
