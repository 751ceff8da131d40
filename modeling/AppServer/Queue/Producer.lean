import AppServer.Queue.Shape

/-!
# The steps of the producer keep the shape

The producer reads `front` again, puts an element in the tail block, or goes
on to the block ahead with it: a spare one, or one it has allocated and linked
in, which is spare until `tailBlock` is moved on.
-/

namespace AppServer

namespace Queue

open Lib

variable {α : Type*} {maxBlockSize : ℕ} {s s' : State α} {a : Action α}
  {used spare : List BlockPtr} {held held' : BlockPtr → List α} {p q : BlockPtr} {b : Block α}
  {pc pc' : ProducerPc α} {x : α}

/-! ## Steps with no element constructed -/

/-- No element is constructed that is not part of the queue. -/
structure ProducerPc.EmptyHanded (pc : ProducerPc α) : Prop where
  built : pc.built = fun _ => []
  ahead : pc.ahead = fun _ => []
  fresh : pc.fresh = none

theorem ProducerPc.EmptyHanded.of_not_enqueuing (h : pc.enqueuing = false) : pc.EmptyHanded := by
  cases pc with
  | idle => exact ⟨rfl, rfl, rfl⟩
  | returned r => exact ⟨rfl, rfl, rfl⟩
  | _ => cases h

theorem ProducerPc.EmptyHanded.of_eq (hpc : s.producer = pc) (h : pc.EmptyHanded) :
    s.producer.EmptyHanded := hpc ▸ h

/-- The producer goes from one place to another. -/
theorem Core.produceAt (pc' : ProducerPc α) (h : Core s used spare held)
    (hpc : s.producer.EmptyHanded) (hpc' : pc'.EmptyHanded) :
    Core (s.produceAt pc') used spare held ∧
      ProducerMove s (s.produceAt pc') used spare used spare held held := by
  refine ⟨h.of_pc rfl rfl (fun _ _ => rfl) rfl rfl (hpc'.built.trans hpc.built.symm)
    (hpc'.ahead.trans hpc.ahead.symm) rfl rfl h.largest ?_, rfl, rfl, rfl,
    Or.inl ⟨rfl, rfl, rfl⟩, ?_, ?_, ?_⟩
  · intro p b hb
    show p ∈ used ++ spare ∨ pc'.fresh = some p
    rw [hpc'.fresh, ← hpc.fresh]
    exact h.allocated p b hb
  · exact fun p _ b hb => ⟨b, hb, rfl, rfl, rfl⟩
  · exact fun p _ => ⟨[], by rw [List.append_nil]⟩
  · exact fun _ _ _ => rfl

/-- One block changes under the producer's hands. -/
theorem ProducerMove.of_update (b' : Block α) (hb : s.heap p = some b)
    (hheap : s'.heap = Function.update s.heap p (some b'))
    (hheld : ∀ q, q ≠ p → held' q = held q) (hcons : s'.consumer = s.consumer)
    (hfront : s'.frontBlock = s.frontBlock) (htail : s'.tailBlock = s.tailBlock)
    (hrem : s'.removed = s.removed)
    (hbfront : b'.front = b.front) (hlocal : b'.localTail = b.localTail)
    (hmask : b'.sizeMask = b.sizeMask) (hfilled : p ∈ used → ∃ xs, held' p = held p ++ xs)
    (hsettled : p ∈ used → p ≠ s.tailBlock → held' p = held p) :
    ProducerMove s s' used spare used spare held held' := by
  refine ⟨hcons, hfront, hrem, Or.inl ⟨htail, rfl, rfl⟩, ?_, ?_, ?_⟩
  · intro q _ b₁ hb₁
    rw [hheap] at hb₁
    by_cases hq : q = p
    · subst hq
      rw [Function.update_self] at hb₁
      obtain rfl := Option.some.inj hb₁
      exact ⟨b, hb, hbfront, hmask, hlocal⟩
    · rw [Function.update_of_ne hq] at hb₁
      exact ⟨b₁, hb₁, rfl, rfl, rfl⟩
  · intro q hq
    by_cases hqp : q = p
    · subst hqp
      exact hfilled hq
    · exact ⟨[], by rw [hheld q hqp, List.append_nil]⟩
  · intro q hq hqt
    by_cases hqp : q = p
    · subst hqp
      exact hsettled hq hqt
    · exact hheld q hqp

/-- A block of the circle in which no element was constructed. -/
theorem Core.built_nil (h : Core s used spare held) (hpc : s.producer.EmptyHanded)
    (hp : p ∈ used ++ spare) (hb : s.heap p = some b) :
    b.Sound (s.consumer.taken p) (held p) [] := by
  have hs := h.sound hp hb
  rwa [hpc.built] at hs

/-- The producer reads `front`, with no element constructed. -/
theorem Core.seeFront (pc' : ProducerPc α) (h : Core s used spare held) (hp : p ∈ used ++ spare)
    (hb : s.heap p = some b) (hpc : s.producer.EmptyHanded) (hpc' : pc'.EmptyHanded) :
    Core ((s.setBlock p { b with localFront := b.front }).produceAt pc') used spare held ∧
      ProducerMove s ((s.setBlock p { b with localFront := b.front }).produceAt pc')
        used spare used spare held held := by
  have hbuilt : pc'.built = s.producer.built := hpc'.built.trans hpc.built.symm
  have hahead : pc'.ahead = s.producer.ahead := hpc'.ahead.trans hpc.ahead.symm
  obtain ⟨hsound, hseen⟩ := (h.sound hp hb).seeFront
  constructor
  · refine h.of_update { b with localFront := b.front } hp hb rfl (fun _ _ => rfl) rfl rfl rfl
      (fun _ _ => rfl) (fun q _ => congrFun hbuilt q) (fun q _ => congrFun hahead q) ?_
      (h.nonempty p) ?_ ?_ ?_ h.history rfl (hpc'.fresh.trans hpc.fresh.symm)
    · show Block.Sound _ _ (held p) (pc'.built p)
      rw [hbuilt]
      exact hsound
    · intro hsp
      show held p = pc'.ahead p
      rw [hahead]
      exact h.unused p hsp
    · rintro rfl
      exact h.tailSeen b hb
    · intro _
      show Block.FrontSeen _ _ _ (pc'.built p) 0
      rw [hbuilt]
      exact hseen
  · exact ProducerMove.of_update { b with localFront := b.front } hb rfl (fun _ _ => rfl) rfl rfl
      rfl rfl rfl rfl rfl (fun _ => ⟨[], by rw [List.append_nil]⟩) fun _ _ => rfl

/-! ## Blocks that are not in use -/

theorem Core.spare_ne (h : Core s used spare held) (hq : q ∈ spare) :
    q ∉ used ∧ q ≠ s.frontBlock ∧ q ≠ s.tailBlock := by
  have hqu : q ∉ used := fun hu => h.not_spare hu hq
  refine ⟨hqu, ?_, ?_⟩
  · rintro rfl
    exact hqu h.front_mem
  · rintro rfl
    exact hqu h.tail_mem

/-- A spare block changes; it may now hold the element that is ahead. -/
theorem Core.updateSpare (b' : Block α) (ys : List α) (pc' : ProducerPc α)
    (h : Core s used spare held) (hq : q ∈ spare) (hb : s.heap q = some b)
    (hnext : b'.next = b.next) (hbuilt : ∀ p, p ≠ q → pc'.built p = s.producer.built p)
    (hahead : ∀ p, p ≠ q → pc'.ahead p = s.producer.ahead p)
    (hsound : b'.Sound (s.consumer.taken q) ys (pc'.built q)) (hun : ys = pc'.ahead q)
    (hfresh : pc'.fresh = s.producer.fresh) :
    Core ((s.setBlock q b').produceAt pc') used spare (Function.update held q ys) := by
  obtain ⟨hqu, hqf, hqt⟩ := h.spare_ne hq
  refine h.of_update b' (List.mem_append_right _ hq) hb rfl
    (fun p hp => Function.update_of_ne hp _ _) rfl rfl hnext (fun _ _ => rfl) hbuilt hahead ?_
    (fun hmem => absurd (List.mem_of_mem_tail hmem) hqu) ?_ (fun hqf' => absurd hqf' hqf)
    (fun hqt' => absurd hqt' hqt) ?_ rfl hfresh
  · rw [Function.update_self]
    exact hsound
  · rw [Function.update_self]
    exact fun _ => hun
  · rw [flatMap_update hqu]
    exact h.history

/-! ## A new block -/

theorem newBlockSize_eq (maxBlockSize : ℕ) (h : ∃ e, s.largestBlockSize = 2 ^ (e + 1)) :
    ∃ e, newBlockSize maxBlockSize s.largestBlockSize = 2 ^ (e + 1) := by
  obtain ⟨e, he⟩ := h
  rw [newBlockSize]
  split
  · exact ⟨e, he⟩
  · exact ⟨e + 1, by rw [he, ← Nat.pow_succ]⟩

/-- A block as `inner_enqueue` makes it. -/
theorem newBlock_sound (x : α) (next : BlockPtr) {size e : ℕ} (hsize : size = 2 ^ (e + 1)) :
    ({ makeBlock α size with
        data := Function.update (fun _ => none) 0 (some x)
        tail := 1
        localTail := 1
        next := next } : Block α).Sound 0 [x] [] ∧
      ({ makeBlock α size with
        data := Function.update (fun _ => none) 0 (some x)
        tail := 1
        localTail := 1
        next := next } : Block α).FrontSeen 0 [x] [] 0 := by
  have htwo : 2 ≤ size := by
    rw [hsize, Nat.pow_succ]
    exact Nat.le_mul_of_pos_left 2 (Nat.two_pow_pos e)
  have hsz : size - 1 + 1 = size := by omega
  constructor
  · refine ⟨⟨e, ?_⟩, Nat.succ_pos _, ?_, ?_, ?_⟩
    · show size - 1 + 1 = 2 ^ (e + 1)
      rw [hsz, hsize]
    · show 1 = (0 + (0 + 1)) % (size - 1 + 1)
      rw [hsz, Nat.mod_eq_of_lt (by omega)]
    · show 0 + 1 + 0 < size - 1 + 1
      omega
    · show CircularBuffer.Holds (size - 1 + 1) _ 0 [x]
      have hpush := (CircularBuffer.holds_nil (α := α) (i := 0) (m := size) (by omega)).push
        (x := x) (show 0 + 1 < size by omega)
      rw [hsz]
      simpa using hpush
  · refine ⟨0, Nat.succ_pos _, ?_, ?_⟩
    · exact (Nat.zero_mod _).symm
    · show 0 + (0 + 1) + 0 + 0 < size - 1 + 1
      omega

/-! ## The steps

One lemma for each place the producer can be at. A step gives the blocks their
new shape, says what the producer knows then, and is a move the consumer can
count on. -/

/-- The shape is kept, by a move the consumer can count on. -/
def ProducerKept (s s' : State α) (used spare : List BlockPtr) (held : BlockPtr → List α) : Prop :=
  ∃ used' spare' held', Core s' used' spare' held' ∧
    ProducerAt s' used' spare' held' s'.producer ∧
    ProducerMove s s' used spare used' spare' held held'

/-! ### Looking for room -/

theorem producer_callRoom (hcore : Core s used spare held) (hpc : s.producer.enqueuing = false)
    (hb : s.heap s.tailBlock = some b) (hroom : (b.tail + 1) &&& b.sizeMask ≠ b.localFront) :
    ProducerKept s
      (s.produceAt (.construct x s.tailBlock b.tail ((b.tail + 1) &&& b.sizeMask)))
      used spare held := by
  have hempty := ProducerPc.EmptyHanded.of_not_enqueuing hpc
  have hs := hcore.built_nil hempty hcore.tail_mem_ring hb
  have hseen := hcore.frontSeen b hb
  rw [hempty.built] at hseen
  obtain ⟨hcore', hmove⟩ := hcore.produceAt
    (.construct x s.tailBlock b.tail ((b.tail + 1) &&& b.sizeMask)) hempty ⟨rfl, rfl, rfl⟩
  refine ⟨used, spare, held, hcore', ⟨rfl, fun b' hb' => ?_⟩, hmove⟩
  obtain rfl := Option.some.inj (hb.symm.trans hb')
  exact ⟨rfl, rfl, not_not.1 fun hno => hroom ((hseen.next_eq_iff hs).2 hno)⟩

theorem producer_callFull {mode : AllocationMode} (hcore : Core s used spare held)
    (hpc : s.producer.enqueuing = false) (hb : s.heap s.tailBlock = some b) :
    ProducerKept s
      (s.produceAt (.readFront mode x s.tailBlock b.tail ((b.tail + 1) &&& b.sizeMask)))
      used spare held := by
  have hempty := ProducerPc.EmptyHanded.of_not_enqueuing hpc
  obtain ⟨hcore', hmove⟩ := hcore.produceAt
    (.readFront mode x s.tailBlock b.tail ((b.tail + 1) &&& b.sizeMask)) hempty ⟨rfl, rfl, rfl⟩
  refine ⟨used, spare, held, hcore', ⟨rfl, fun b' hb' => ?_⟩, hmove⟩
  obtain rfl := Option.some.inj (hb.symm.trans hb')
  exact ⟨rfl, rfl⟩

theorem producer_readRoom {mode : AllocationMode} {i j : ℕ} (hcore : Core s used spare held)
    (hat : ProducerAt s used spare held s.producer) (hpc : s.producer = .readFront mode x p i j)
    (hb : s.heap p = some b) (hroom : j ≠ b.front) :
    ProducerKept s
      ((s.setBlock p { b with localFront := b.front }).produceAt (.construct x p i j))
      used spare held := by
  have hempty := ProducerPc.EmptyHanded.of_eq hpc ⟨rfl, rfl, rfl⟩
  rw [hpc] at hat
  obtain ⟨rfl, hij⟩ := hat
  obtain ⟨rfl, rfl⟩ := hij b hb
  obtain ⟨hs, hseen⟩ := (hcore.built_nil hempty hcore.tail_mem_ring hb).seeFront
  obtain ⟨hcore', hmove⟩ := hcore.seeFront
    (.construct x s.tailBlock b.tail ((b.tail + 1) &&& b.sizeMask)) hcore.tail_mem_ring hb hempty
    ⟨rfl, rfl, rfl⟩
  refine ⟨used, spare, held, hcore', ⟨rfl, fun b' hb' => ?_⟩, hmove⟩
  obtain rfl := eq_of_update hb'
  exact ⟨rfl, rfl, not_not.1 fun hno => hroom ((hseen.next_eq_iff hs).2 hno)⟩

theorem producer_readFull {mode : AllocationMode} {i j : ℕ} (hcore : Core s used spare held)
    (hat : ProducerAt s used spare held s.producer) (hpc : s.producer = .readFront mode x p i j)
    (hb : s.heap p = some b) :
    ProducerKept s
      ((s.setBlock p { b with localFront := b.front }).produceAt (.readFrontBlock mode x p))
      used spare held := by
  have hempty := ProducerPc.EmptyHanded.of_eq hpc ⟨rfl, rfl, rfl⟩
  rw [hpc] at hat
  obtain ⟨rfl, -⟩ := hat
  obtain ⟨hcore', hmove⟩ := hcore.seeFront (.readFrontBlock mode x s.tailBlock)
    hcore.tail_mem_ring hb hempty ⟨rfl, rfl, rfl⟩
  exact ⟨used, spare, held, hcore', rfl, hmove⟩

/-! ### In the tail block -/

/-- The element is constructed behind the others. -/
theorem Core.construct (j : ℕ) (h : Core s used spare held) (hempty : s.producer.EmptyHanded)
    (hb : s.heap s.tailBlock = some b)
    (hroom : b.FrontSeen (s.consumer.taken s.tailBlock) (held s.tailBlock) [] 1) :
    Core ((s.setBlock s.tailBlock
      { b with data := Function.update b.data b.tail (some x) }).produceAt
        (.storeTail x s.tailBlock j)) used spare held := by
  have htu := h.tail_mem
  have hs := h.built_nil hempty h.tail_mem_ring hb
  set pc' : ProducerPc α := .storeTail x s.tailBlock j
  have hbuilt : pc'.built s.tailBlock = [x] := if_pos rfl
  refine h.of_update _ h.tail_mem_ring hb rfl (fun _ _ => rfl) rfl rfl rfl (fun _ _ => rfl)
    (fun q hq => ?_) (fun q _ => ?_) ?_ (h.nonempty _) ?_ ?_ ?_ h.history rfl
    (by rw [hempty.fresh]; rfl)
  · rw [hempty.built]
    exact if_neg hq
  · rw [hempty.ahead]
    rfl
  · show Block.Sound _ _ _ (pc'.built s.tailBlock)
    rw [hbuilt]
    exact hs.construct hroom.fits
  · exact fun hsp => absurd hsp (h.not_spare htu)
  · intro hft
    have hts := h.tailSeen b (hft ▸ hb)
    rw [← hft] at hts
    exact hts
  · intro _
    show Block.FrontSeen _ _ _ (pc'.built s.tailBlock) 0
    rw [hbuilt]
    exact hroom.construct

theorem producer_construct {i j : ℕ} (hcore : Core s used spare held)
    (hat : ProducerAt s used spare held s.producer) (hpc : s.producer = .construct x p i j)
    (hb : s.heap p = some b) :
    ProducerKept s
      ((s.setBlock p { b with data := Function.update b.data i (some x) }).produceAt
        (.storeTail x p j)) used spare held := by
  have hempty := ProducerPc.EmptyHanded.of_eq hpc ⟨rfl, rfl, rfl⟩
  rw [hpc] at hat
  obtain ⟨rfl, hfacts⟩ := hat
  obtain ⟨rfl, rfl, hroom⟩ := hfacts b hb
  refine ⟨used, spare, held, hcore.construct _ hempty hb hroom, ⟨rfl, fun b' hb' => ?_⟩, ?_⟩
  · obtain rfl := eq_of_update hb'
    rfl
  · exact ProducerMove.of_update _ hb rfl (fun _ _ => rfl) rfl rfl rfl rfl rfl rfl rfl
      (fun _ => ⟨[], by rw [List.append_nil]⟩) fun _ _ => rfl

/-- Where the tail block has one more element, the queue has. -/
theorem Core.history_snoc (h : Core s used spare held) :
    s.accepted ++ [x] = s.removed ++ (s.consumer.inFlight ++
      used.flatMap (Function.update held s.tailBlock (held s.tailBlock ++ [x]))) := by
  obtain ⟨l, hused⟩ := h.exists_snoc
  have htl : s.tailBlock ∉ l := by
    have hnd := (List.nodup_append.1 h.nodup).1
    rw [hused] at hnd
    intro hmem
    exact (List.nodup_append.1 hnd).2.2 _ hmem _ (List.mem_singleton_self _) rfl
  have hhist := h.history
  rw [hused, List.flatMap_append, List.flatMap_singleton] at hhist
  rw [hused, List.flatMap_append, List.flatMap_singleton, Function.update_self, flatMap_update htl,
    hhist]
  simp only [List.append_assoc]

/-- The element constructed there becomes part of the queue. -/
theorem Core.storeTail (h : Core s used spare held)
    (hpc : s.producer = .storeTail x s.tailBlock ((b.tail + 1) &&& b.sizeMask))
    (hb : s.heap s.tailBlock = some b) :
    Core { (s.setBlock s.tailBlock { b with tail := (b.tail + 1) &&& b.sizeMask }).produceAt
        (.returned true) with accepted := s.accepted ++ [x] }
      used spare (Function.update held s.tailBlock (held s.tailBlock ++ [x])) := by
  have hbuilt : s.producer.built s.tailBlock = [x] := by
    rw [hpc]
    exact if_pos rfl
  have hs := h.sound h.tail_mem_ring hb
  rw [hbuilt] at hs
  refine h.of_update _ h.tail_mem_ring hb rfl (fun q hq => Function.update_of_ne hq _ _) rfl rfl rfl
    (fun _ _ => rfl) (fun q hq => ?_) (fun q _ => ?_) ?_ ?_ ?_ ?_ ?_ h.history_snoc rfl
    (by rw [hpc]; rfl)
  · rw [hpc]
    exact (if_neg hq).symm
  · rw [hpc]
    rfl
  · rw [Function.update_self]
    exact hs.publish
  · rw [Function.update_self]
    exact fun _ => List.append_ne_nil_of_right_ne_nil _ (List.cons_ne_nil x [])
  · exact fun hsp => absurd hsp (h.not_spare h.tail_mem)
  · intro hft
    have hts := h.tailSeen b (hft ▸ hb)
    rw [← hft] at hts
    rw [Function.update_self]
    exact hts.append rfl rfl rfl
  · intro _
    have hfs := h.frontSeen b hb
    rw [hbuilt] at hfs
    rw [Function.update_self]
    exact hfs.publish

theorem producer_storeTail {j : ℕ} (hcore : Core s used spare held)
    (hat : ProducerAt s used spare held s.producer) (hpc : s.producer = .storeTail x p j)
    (hb : s.heap p = some b) :
    ProducerKept s
      { (s.setBlock p { b with tail := j }).produceAt (.returned true) with
        accepted := s.accepted ++ [x] } used spare held := by
  rw [hpc] at hat
  obtain ⟨rfl, hj⟩ := hat
  obtain rfl := hj b hb
  refine ⟨used, spare, _, hcore.storeTail hpc hb, trivial, ?_⟩
  refine ProducerMove.of_update _ hb rfl (fun q hq => Function.update_of_ne hq _ _) rfl rfl rfl rfl
    rfl rfl rfl (fun _ => ⟨[x], ?_⟩) ?_
  · rw [Function.update_self]
  · exact fun _ hne => absurd rfl hne

/-! ### What is behind the tail block -/

theorem producer_goAhead {mode : AllocationMode} (hcore : Core s used spare held)
    (hat : ProducerAt s used spare held s.producer) (hpc : s.producer = .readFrontBlock mode x p)
    (hb : s.heap p = some b) (hfree : b.next ≠ s.frontBlock) :
    ProducerKept s (s.produceAt (.readNextFront x b.next)) used spare held := by
  have hempty := ProducerPc.EmptyHanded.of_eq hpc ⟨rfl, rfl, rfl⟩
  rw [hpc] at hat
  obtain rfl : p = s.tailBlock := hat
  obtain ⟨hcore', hmove⟩ := hcore.produceAt (.readNextFront x b.next) hempty ⟨rfl, rfl, rfl⟩
  refine ⟨used, spare, held, hcore', ?_, hmove⟩
  rcases hcore.next_tail with ⟨-, hring⟩ | ⟨q, l, hsp, hnext, -⟩
  · rw [Core.next_eq hb] at hring
    exact absurd hring hfree
  · rw [Core.next_eq hb] at hnext
    show spare.head? = some b.next
    rw [hsp, hnext]
    rfl

theorem producer_goAllocate (hcore : Core s used spare held)
    (hat : ProducerAt s used spare held s.producer)
    (hpc : s.producer = .readFrontBlock .canAlloc x p) :
    ProducerKept s (s.produceAt (.allocate x p)) used spare held := by
  have hempty := ProducerPc.EmptyHanded.of_eq hpc ⟨rfl, rfl, rfl⟩
  rw [hpc] at hat
  obtain ⟨hcore', hmove⟩ := hcore.produceAt (.allocate x p) hempty ⟨rfl, rfl, rfl⟩
  exact ⟨used, spare, held, hcore', hat, hmove⟩

/-- The call is given up, with nothing in hand. -/
theorem producer_fails (hcore : Core s used spare held) (hempty : s.producer.EmptyHanded) :
    ProducerKept s (s.produceAt (.returned false)) used spare held := by
  obtain ⟨hcore', hmove⟩ := hcore.produceAt (.returned false) hempty ⟨rfl, rfl, rfl⟩
  exact ⟨used, spare, held, hcore', trivial, hmove⟩

/-! ### In the block ahead -/

/-- Nothing is in the block ahead. -/
theorem Core.ahead_nil (h : Core s used spare held) (hcons : ConsumerAt s used held s.consumer)
    (hempty : s.producer.EmptyHanded) (hq : q ∈ spare) (hb : s.heap q = some b) :
    held q = [] ∧ s.consumer.taken q = 0 ∧ b.Sound 0 [] [] := by
  obtain ⟨hqu, -, -⟩ := h.spare_ne hq
  have hheld : held q = [] := by rw [h.unused q hq, hempty.ahead]
  have htaken := hcons.taken_eq_zero h hqu
  have hs := h.built_nil hempty (List.mem_append_right _ hq) hb
  rw [hheld, htaken] at hs
  exact ⟨hheld, htaken, hs⟩

theorem producer_readNextFront (hcore : Core s used spare held)
    (hat : ProducerAt s used spare held s.producer) (hcons : ConsumerAt s used held s.consumer)
    (hpc : s.producer = .readNextFront x q) (hb : s.heap q = some b) :
    ProducerKept s
      ((s.setBlock q { b with localFront := b.front }).produceAt (.constructNext x q b.tail))
      used spare held := by
  have hempty := ProducerPc.EmptyHanded.of_eq hpc ⟨rfl, rfl, rfl⟩
  rw [hpc] at hat
  have hq : q ∈ spare := List.mem_of_head? hat
  obtain ⟨-, -, hs⟩ := hcore.ahead_nil hcons hempty hq hb
  obtain ⟨hcore', hmove⟩ := hcore.seeFront (.constructNext x q b.tail)
    (List.mem_append_right _ hq) hb hempty ⟨rfl, rfl, rfl⟩
  refine ⟨used, spare, held, hcore', ⟨hat, fun b' hb' => ?_⟩, hmove⟩
  obtain rfl := eq_of_update hb'
  exact ⟨rfl, hs.seeFront_nil⟩

theorem producer_constructNext {i : ℕ} (hcore : Core s used spare held)
    (hat : ProducerAt s used spare held s.producer) (hcons : ConsumerAt s used held s.consumer)
    (hpc : s.producer = .constructNext x q i) (hb : s.heap q = some b) :
    ProducerKept s
      ((s.setBlock q { b with data := Function.update b.data i (some x) }).produceAt
        (.storeNextTail x q i)) used spare held := by
  have hempty := ProducerPc.EmptyHanded.of_eq hpc ⟨rfl, rfl, rfl⟩
  rw [hpc] at hat
  obtain ⟨hhead, hfacts⟩ := hat
  obtain ⟨rfl, hroom⟩ := hfacts b hb
  have hq : q ∈ spare := List.mem_of_head? hhead
  obtain ⟨hqu, -, -⟩ := hcore.spare_ne hq
  obtain ⟨hheld, htaken, hs⟩ := hcore.ahead_nil hcons hempty hq hb
  set pc' : ProducerPc α := .storeNextTail x q b.tail
  have hbuilt : pc'.built q = [x] := if_pos rfl
  have hself : Function.update held q [] = held := by
    rw [← hheld]
    exact Function.update_eq_self q held
  refine ⟨used, spare, Function.update held q [], ?_, ⟨hhead, fun b' hb' => ?_⟩, ?_⟩
  · refine hcore.updateSpare _ [] pc' hq hb rfl (fun p hp => ?_) (fun p _ => ?_) ?_ rfl
      hempty.fresh.symm
    · rw [hempty.built]
      exact if_neg hp
    · rw [hempty.ahead]
      rfl
    · rw [htaken, hbuilt]
      exact hs.construct hroom.fits
  · obtain rfl := eq_of_update hb'
    exact ⟨rfl, hroom.construct⟩
  · rw [hself]
    exact ProducerMove.of_update _ hb rfl (fun _ _ => rfl) rfl rfl rfl rfl rfl rfl rfl
      (fun hu => absurd hu hqu) fun hu _ => absurd hu hqu

theorem producer_storeNextTail {i : ℕ} (hcore : Core s used spare held)
    (hat : ProducerAt s used spare held s.producer) (hcons : ConsumerAt s used held s.consumer)
    (hpc : s.producer = .storeNextTail x q i) (hb : s.heap q = some b) :
    ProducerKept s
      ((s.setBlock q { b with tail := (i + 1) &&& b.sizeMask }).produceAt (.storeTailBlock x q))
      used spare held := by
  rw [hpc] at hat
  obtain ⟨hhead, hfacts⟩ := hat
  obtain ⟨rfl, hseen⟩ := hfacts b hb
  have hq : q ∈ spare := List.mem_of_head? hhead
  obtain ⟨hqu, -, -⟩ := hcore.spare_ne hq
  have hheld : held q = [] := by
    rw [hcore.unused q hq, hpc]
    rfl
  have htaken := hcons.taken_eq_zero hcore hqu
  have hbuilt : s.producer.built q = [x] := by
    rw [hpc]
    exact if_pos rfl
  have hs := hcore.sound (List.mem_append_right _ hq) hb
  rw [hheld, htaken, hbuilt] at hs
  set pc' : ProducerPc α := .storeTailBlock x q
  have hahead : pc'.ahead q = [x] := if_pos rfl
  refine ⟨used, spare, Function.update held q [x], ?_, ⟨hhead, fun b' hb' => ?_⟩, ?_⟩
  · refine hcore.updateSpare _ [x] pc' hq hb rfl (fun p hp => ?_) (fun p hp => ?_) ?_ hahead.symm
      (by rw [hpc]; rfl)
    · rw [hpc]
      exact (if_neg hp).symm
    · rw [hpc]
      exact if_neg hp
    · rw [htaken]
      exact hs.publish
  · obtain rfl := eq_of_update hb'
    exact hseen.publish
  · exact ProducerMove.of_update _ hb rfl (fun p hp => Function.update_of_ne hp _ _) rfl rfl rfl
      rfl rfl rfl rfl (fun hu => absurd hu hqu) fun hu _ => absurd hu hqu

/-! ### A block of its own -/

/-- What is allocated is not one of the blocks there are. -/
theorem Core.not_mem_of_free {m : BlockPtr} (h : Core s used spare held) (hnew : s.heap m = none) :
    m ∉ used ++ spare := by
  intro hmem
  obtain ⟨b, hb, -⟩ := h.block m hmem
  rw [hnew] at hb
  cases hb

theorem producer_allocate {m : BlockPtr} (hcore : Core s used spare held)
    (hat : ProducerAt s used spare held s.producer) (hpc : s.producer = .allocate x p)
    (hb : s.heap p = some b) (hnew : s.heap m = none) :
    ProducerKept s
      { (s.setBlock m { makeBlock α (newBlockSize maxBlockSize s.largestBlockSize) with
            data := Function.update (fun _ => none) 0 (some x)
            tail := 1
            localTail := 1
            next := b.next }).produceAt (.linkNext x p m) with
        largestBlockSize := newBlockSize maxBlockSize s.largestBlockSize } used spare held := by
  have hempty := ProducerPc.EmptyHanded.of_eq hpc ⟨rfl, rfl, rfl⟩
  rw [hpc] at hat
  obtain rfl : p = s.tailBlock := hat
  obtain ⟨e, he⟩ := newBlockSize_eq maxBlockSize hcore.largest
  obtain ⟨hs, hseen⟩ := newBlock_sound x b.next he
  have hmring := hcore.not_mem_of_free hnew
  have hold : ∀ p ∈ used ++ spare, ∀ nb : Block α,
      Function.update s.heap m (some nb) p = s.heap p := by
    intro p hp nb
    refine Function.update_of_ne ?_ _ _
    rintro rfl
    exact hmring hp
  refine ⟨used, spare, held, ?_, ⟨rfl, hmring, _, Function.update_self _ _ _, hs, hseen, ?_⟩,
    rfl, rfl, rfl, Or.inl ⟨rfl, rfl, rfl⟩, ?_, ?_, ?_⟩
  · refine hcore.of_pc rfl rfl (fun p hp => hold p hp _) rfl rfl ?_ ?_ rfl rfl ⟨e, he⟩ ?_
    · rw [hempty.built]
      rfl
    · rw [hempty.ahead]
      rfl
    · intro p b' hb'
      by_cases hpm : p = m
      · exact Or.inr (congrArg some hpm.symm)
      · have hb'' : s.heap p = some b' := (Function.update_of_ne hpm _ _).symm.trans hb'
        rcases hcore.allocated p b' hb'' with hmem | hfresh
        · exact Or.inl hmem
        · rw [hempty.fresh] at hfresh
          cases hfresh
  · exact (Core.next_eq hb).symm.trans (Core.next_congr (hold _ hcore.tail_mem_ring _)).symm
  · intro p hp b' hb'
    refine ⟨b', ?_, rfl, rfl, rfl⟩
    rw [← hold p hp]
    exact hb'
  · exact fun p _ => ⟨[], by rw [List.append_nil]⟩
  · exact fun _ _ _ => rfl

/-- Only the link changes. -/
theorem Core.next_link (pc' : ProducerPc α) :
    ((s.setBlock p { b with next := q }).produceAt pc').next = Function.update s.next p q := by
  funext r
  by_cases hr : r = p
  · subst hr
    have hself : ((s.setBlock r { b with next := q }).produceAt pc').heap r =
        some { b with next := q } := Function.update_self _ _ _
    rw [Function.update_self, Core.next_eq hself]
  · rw [Function.update_of_ne hr]
    exact Core.next_congr (Function.update_of_ne hr _ _)

/-- The blocks there were are as sound with the tail block linked elsewhere. -/
theorem Core.block_link {r : BlockPtr} (pc' : ProducerPc α) (h : Core s used spare held)
    (hb : s.heap s.tailBlock = some b) (hr : r ∈ used ++ spare) :
    ∃ b', ((s.setBlock s.tailBlock { b with next := q }).produceAt pc').heap r = some b' ∧
      b'.Sound (s.consumer.taken r) (held r) (s.producer.built r) := by
  obtain ⟨b', hb', hs'⟩ := h.block r hr
  by_cases hrt : r = s.tailBlock
  · subst hrt
    obtain rfl := Option.some.inj (hb.symm.trans hb')
    exact ⟨_, Function.update_self _ _ _, hs'.size, hs'.front_lt, hs'.tail, hs'.fits, hs'.holds⟩
  · exact ⟨b', (Function.update_of_ne hrt _ _).trans hb', hs'⟩

/-- The new block is linked in, as a spare one with the element in it. -/
theorem Core.linkNext {bq : Block α} (h : Core s used spare held)
    (hcons : ConsumerAt s used held s.consumer) (hpc : s.producer = .linkNext x s.tailBlock q)
    (hb : s.heap s.tailBlock = some b) (hq : q ∉ used ++ spare) (hbq : s.heap q = some bq)
    (hs : bq.Sound 0 [x] []) (hnextq : bq.next = s.next s.tailBlock) :
    Core ((s.setBlock s.tailBlock { b with next := q }).produceAt (.storeTailBlock x q))
      used (q :: spare) (Function.update held q [x]) := by
  have hqu : q ∉ used := fun hu => hq (List.mem_append_left _ hu)
  have hqt : q ≠ s.tailBlock := by
    rintro rfl
    exact hqu h.tail_mem
  have hbuilt : s.producer.built = fun _ => [] := by rw [hpc]; rfl
  have hheld : ∀ r, r ≠ q → Function.update held q [x] r = held r :=
    fun r hr => Function.update_of_ne hr _ _
  have hring : (used ++ q :: spare).Perm (q :: (used ++ spare)) := List.perm_middle
  refine ⟨hring.nodup_iff.2 (List.nodup_cons.2 ⟨hq, h.nodup⟩), h.head, h.last, ?_,
    fun r hr => ?_, fun r hr => ?_, fun r hr => ?_, fun b' hb' => ?_, fun b' hb' => ?_, ?_,
    h.largest, fun r b' hb' => Or.inl ?_⟩
  · rw [Core.next_link]
    obtain ⟨l, hused⟩ := h.exists_snoc
    have hcirc := h.circular
    have hnd := h.nodup
    rw [hused, List.append_assoc] at hcirc hnd hq
    rw [hused, List.append_assoc]
    refine hcirc.insert hnd hq ?_
    rw [Core.next_eq hbq]
    exact hnextq
  · rcases List.mem_cons.1 (hring.mem_iff.1 hr) with rfl | hold
    · refine ⟨bq, (Function.update_of_ne hqt _ _).trans hbq, ?_⟩
      rw [Function.update_self]
      show bq.Sound (s.consumer.taken r) [x] []
      rw [hcons.taken_eq_zero h hqu]
      exact hs
    · rw [hheld r fun he => hq (he ▸ hold)]
      have hblock := h.block_link (q := q) (.storeTailBlock x q) hb hold
      rw [hbuilt] at hblock
      exact hblock
  · have hrq : r ≠ q := by
      rintro rfl
      exact hqu (List.mem_of_mem_tail hr)
    rw [hheld r hrq]
    exact h.nonempty r hr
  · rcases List.mem_cons.1 hr with rfl | hold
    · rw [Function.update_self]
      exact (if_pos rfl).symm
    · have hrq : r ≠ q := by
        rintro rfl
        exact hq (List.mem_append_right _ hold)
      rw [hheld r hrq, h.unused r hold, hpc]
      exact (if_neg hrq).symm
  · have hfq : s.frontBlock ≠ q := by
      rintro rfl
      exact hqu h.front_mem
    show b'.TailSeen _ (Function.update held q [x] s.frontBlock) 0
    rw [hheld _ hfq]
    by_cases hft : s.frontBlock = s.tailBlock
    · have hts := h.tailSeen b (hft ▸ hb)
      have hb'' : Function.update s.heap s.tailBlock _ s.frontBlock = some b' := hb'
      rw [hft] at hb''
      obtain rfl := eq_of_update hb''
      exact hts
    · exact h.tailSeen b' ((Function.update_of_ne hft _ _).symm.trans hb')
  · obtain rfl := eq_of_update hb'
    have hfs := h.frontSeen b hb
    rw [hbuilt] at hfs
    show Block.FrontSeen _ _ (Function.update held q [x] s.tailBlock) _ 0
    rw [hheld _ hqt.symm]
    exact hfs
  · rw [flatMap_update hqu]
    exact h.history
  · refine hring.mem_iff.2 (List.mem_cons.2 ?_)
    by_cases hrt : r = s.tailBlock
    · exact Or.inr (hrt ▸ h.tail_mem_ring)
    · rcases h.allocated r b' ((Function.update_of_ne hrt _ _).symm.trans hb') with hr | hr
      · exact Or.inr hr
      · rw [hpc] at hr
        exact Or.inl (Option.some.inj hr).symm

theorem producer_linkNext (hcore : Core s used spare held)
    (hat : ProducerAt s used spare held s.producer) (hcons : ConsumerAt s used held s.consumer)
    (hpc : s.producer = .linkNext x p q) (hb : s.heap p = some b) :
    ProducerKept s ((s.setBlock p { b with next := q }).produceAt (.storeTailBlock x q))
      used spare held := by
  rw [hpc] at hat
  obtain ⟨rfl, hq, bq, hbq, hs, hseen, hnextq⟩ := hat
  have hqu : q ∉ used := fun hu => hq (List.mem_append_left _ hu)
  have hqt : q ≠ s.tailBlock := by
    rintro rfl
    exact hqu hcore.tail_mem
  have hheld : ∀ r ∈ used, Function.update held q [x] r = held r := by
    intro r hr
    refine Function.update_of_ne ?_ _ _
    rintro rfl
    exact hqu hr
  refine ⟨used, q :: spare, _, hcore.linkNext hcons hpc hb hq hbq hs hnextq,
    ⟨rfl, fun b' hb' => ?_⟩, rfl, rfl, rfl, Or.inr (Or.inl ⟨x, q, hpc, rfl, rfl, rfl⟩),
    fun r hr b' hb' => ?_, fun r hr => ⟨[], ?_⟩, fun r hr _ => hheld r hr⟩
  · obtain rfl := Option.some.inj (((Function.update_of_ne hqt _ _).trans hbq).symm.trans hb')
    exact hseen
  · by_cases hrt : r = s.tailBlock
    · subst hrt
      obtain rfl := eq_of_update hb'
      exact ⟨b, hb, rfl, rfl, rfl⟩
    · exact ⟨b', (Function.update_of_ne hrt _ _).symm.trans hb', rfl, rfl, rfl⟩
  · rw [List.append_nil, hheld r hr]

/-- The block ahead becomes the tail block, and its element part of the
queue. -/
theorem Core.storeTailBlock {l : List BlockPtr} (h : Core s used (q :: l) held)
    (hcons : ConsumerAt s used held s.consumer) (hpc : s.producer = .storeTailBlock x q)
    (hseen : ∀ b, s.heap q = some b → b.FrontSeen 0 [x] [] 0) :
    Core { s.produceAt (.returned true) with tailBlock := q, accepted := s.accepted ++ [x] }
      (used ++ [q]) l held := by
  obtain ⟨hqu, -, -⟩ := h.spare_ne (List.mem_cons_self (a := q) (l := l))
  have hqheld : held q = [x] := by
    rw [h.unused q List.mem_cons_self, hpc]
    exact if_pos rfl
  have hbuilt : s.producer.built = fun _ => [] := by rw [hpc]; rfl
  have hsplit : used ++ [q] ++ l = used ++ q :: l := List.append_assoc used [q] l
  obtain ⟨k, hused⟩ := h.exists_cons
  refine ⟨?_, ?_, List.getLast?_concat, ?_, fun p hp => ?_, fun p hp => ?_, fun p hp => ?_,
    h.tailSeen, fun b hb => ?_, ?_, h.largest, fun p b hb => ?_⟩
  · rw [hsplit]
    exact h.nodup
  · rw [hused]
    rfl
  · rw [hsplit]
    exact h.circular
  · rw [hsplit] at hp
    have hblock := h.block p hp
    rw [hbuilt] at hblock
    exact hblock
  · have hne := h.nonempty p
    rw [hused] at hp hne
    rcases List.mem_append.1 hp with hp | hp
    · exact hne hp
    · rw [List.mem_singleton.1 hp, hqheld]
      exact List.cons_ne_nil x []
  · have hpq : p ≠ q := by
      rintro rfl
      exact (List.nodup_cons.1 (List.nodup_append.1 h.nodup).2.1).1 hp
    rw [h.unused p (List.mem_cons_of_mem q hp), hpc]
    exact if_neg hpq
  · show b.FrontSeen (s.consumer.taken q) (held q) [] 0
    rw [hcons.taken_eq_zero h hqu, hqheld]
    exact hseen b hb
  · rw [List.flatMap_append, List.flatMap_singleton, hqheld]
    show s.accepted ++ [x] = s.removed ++ (s.consumer.inFlight ++ (used.flatMap held ++ [x]))
    rw [h.history]
    simp only [List.append_assoc]
  · rw [hsplit]
    refine Or.inl ((h.allocated p b hb).resolve_right ?_)
    rw [hpc]
    exact nofun

theorem producer_storeTailBlock (hcore : Core s used spare held)
    (hat : ProducerAt s used spare held s.producer) (hcons : ConsumerAt s used held s.consumer)
    (hpc : s.producer = .storeTailBlock x q) :
    ProducerKept s
      { s.produceAt (.returned true) with tailBlock := q, accepted := s.accepted ++ [x] }
      used spare held := by
  rw [hpc] at hat
  obtain ⟨hhead, hseen⟩ := hat
  obtain ⟨l, rfl⟩ : ∃ l, spare = q :: l := by
    cases spare with
    | nil => cases hhead
    | cons r l => exact ⟨l, by rw [Option.some.inj hhead]⟩
  exact ⟨used ++ [q], l, held, hcore.storeTailBlock hcons hpc hseen, trivial, rfl, rfl, rfl,
    Or.inr (Or.inr ⟨x, q, hpc, rfl, rfl⟩), fun p _ b hb => ⟨b, hb, rfl, rfl, rfl⟩,
    fun p _ => ⟨[], by rw [List.append_nil]⟩, fun _ _ _ => rfl⟩

/-- **A step of the producer keeps the shape**, and is a move the consumer
can count on. -/
theorem ProducerStep.sound (h : ProducerStep maxBlockSize s a s') (hcore : Core s used spare held)
    (hat : ProducerAt s used spare held s.producer) (hcons : ConsumerAt s used held s.consumer) :
    ProducerKept s s' used spare held := by
  cases h with
  | callRoom hpc hb hroom => exact producer_callRoom hcore hpc hb hroom
  | callFull hpc hb => exact producer_callFull hcore hpc hb
  | readRoom hpc hb hroom => exact producer_readRoom hcore hat hpc hb hroom
  | readFull hpc hb => exact producer_readFull hcore hat hpc hb
  | construct hpc hb => exact producer_construct hcore hat hpc hb
  | storeTail hpc hb => exact producer_storeTail hcore hat hpc hb
  | goAhead hpc hb hfree => exact producer_goAhead hcore hat hpc hb hfree
  | goAllocate hpc => exact producer_goAllocate hcore hat hpc
  | refuse hpc => exact producer_fails hcore (.of_eq hpc ⟨rfl, rfl, rfl⟩)
  | readNextFront hpc hb => exact producer_readNextFront hcore hat hcons hpc hb
  | constructNext hpc hb => exact producer_constructNext hcore hat hcons hpc hb
  | storeNextTail hpc hb => exact producer_storeNextTail hcore hat hcons hpc hb
  | noMemory hpc => exact producer_fails hcore (.of_eq hpc ⟨rfl, rfl, rfl⟩)
  | allocate hpc hb _ hnew => exact producer_allocate hcore hat hpc hb hnew
  | linkNext hpc hb => exact producer_linkNext hcore hat hcons hpc hb
  | storeTailBlock hpc => exact producer_storeTailBlock hcore hat hcons hpc

end Queue

end AppServer
