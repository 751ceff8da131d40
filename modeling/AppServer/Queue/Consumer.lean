import AppServer.Queue.Shape

/-!
# The steps of the consumer keep the shape

The consumer reads `tail` again, takes the first element of the front block,
gives its slot back, or leaves the front block behind, which is spare from
then on.
-/

namespace AppServer

namespace Queue

open Lib

variable {α : Type*} {s s' : State α} {a : Action α} {used spare : List BlockPtr}
  {held held' : BlockPtr → List α} {p : BlockPtr} {b : Block α} {pc pc' : ConsumerPc α}

/-! ## Steps with no element in hand -/

/-- No element is in hand. -/
structure ConsumerPc.EmptyHanded (pc : ConsumerPc α) : Prop where
  taken : pc.taken = fun _ => 0
  inFlight : pc.inFlight = []

theorem ConsumerPc.EmptyHanded.of_not_dequeuing (h : pc.dequeuing = false) : pc.EmptyHanded := by
  cases pc with
  | idle => exact ⟨rfl, rfl⟩
  | returned r => exact ⟨rfl, rfl⟩
  | _ => cases h

theorem ConsumerPc.EmptyHanded.atElement (op : ConsumerOp) (p : BlockPtr) (i : ℕ) :
    (op.atElement p i : ConsumerPc α).EmptyHanded := by
  cases op with
  | _ => exact ⟨rfl, rfl⟩

theorem ConsumerPc.EmptyHanded.of_eq (hpc : s.consumer = pc) (h : pc.EmptyHanded) :
    s.consumer.EmptyHanded := hpc ▸ h

/-- The consumer goes from one place to another. -/
theorem Core.consumeAt (pc' : ConsumerPc α) (h : Core s used spare held)
    (hpc : s.consumer.EmptyHanded) (hpc' : pc'.EmptyHanded) :
    Core (s.consumeAt pc') used spare held ∧
      ConsumerMove s (s.consumeAt pc') used spare used spare held held := by
  have htaken : pc'.taken = s.consumer.taken := hpc'.taken.trans hpc.taken.symm
  have hflight : pc'.inFlight = s.consumer.inFlight := hpc'.inFlight.trans hpc.inFlight.symm
  refine ⟨h.of_pc rfl rfl (fun _ _ => rfl) htaken hflight rfl rfl rfl rfl h.largest h.allocated,
    rfl, rfl, rfl, List.prefix_refl _, rfl, rfl, Or.inl ⟨rfl, rfl, rfl⟩,
    fun p b hb => ⟨b, hb, rfl, rfl, fun built room hseen => ?_⟩, fun _ _ => rfl, fun _ _ => rfl⟩
  show b.FrontSeen (pc'.taken p) (held p) built room
  rw [htaken]
  exact hseen

/-- One block in use changes under the consumer's hands. -/
theorem ConsumerMove.of_update (b' : Block α)
    (hp : p ∈ used) (hb : s.heap p = some b)
    (hheap : s'.heap = Function.update s.heap p (some b'))
    (hheld : ∀ q, q ≠ p → held' q = held q) (hprod : s'.producer = s.producer)
    (hfront : s'.frontBlock = s.frontBlock) (htail : s'.tailBlock = s.tailBlock)
    (hacc : s'.accepted = s.accepted) (hrem : s.removed <+: s'.removed)
    (hlargest : s'.largestBlockSize = s.largestBlockSize) (hnext : b'.next = b.next)
    (hbtail : b'.tail = b.tail) (hmask : b'.sizeMask = b.sizeMask)
    (htaken : ∀ q, q ≠ p → s'.consumer.taken q = s.consumer.taken q)
    (hseen : ∀ built room, b.FrontSeen (s.consumer.taken p) (held p) built room →
      b'.FrontSeen (s'.consumer.taken p) (held' p) built room)
    (hsettled : p ≠ s.frontBlock → held' p = held p) :
    ConsumerMove s s' used spare used spare held held' := by
  refine ⟨hprod, htail, hacc, hrem, hlargest, ?_, Or.inl ⟨hfront, rfl, rfl⟩, ?_, ?_, ?_⟩
  · funext q
    rw [State.next, State.next, hheap]
    by_cases hq : q = p
    · subst hq
      rw [Function.update_self, hb]
      exact hnext
    · rw [Function.update_of_ne hq]
  · intro q b₁ hb₁
    rw [hheap] at hb₁
    by_cases hq : q = p
    · subst hq
      rw [Function.update_self] at hb₁
      obtain rfl := Option.some.inj hb₁
      exact ⟨b, hb, hbtail, hmask, hseen⟩
    · rw [Function.update_of_ne hq] at hb₁
      refine ⟨b₁, hb₁, rfl, rfl, fun built room hs => ?_⟩
      rw [hheld q hq, htaken q hq]
      exact hs
  · intro q hq
    rw [hheap, Function.update_of_ne]
    rintro rfl
    exact hq hp
  · intro q hq
    by_cases hqp : q = p
    · subst hqp
      exact hsettled hq
    · exact hheld q hqp

/-- The consumer reads `tail`, with no element in hand. -/
theorem Core.seeTail (pc' : ConsumerPc α) (h : Core s used spare held) (hp : p ∈ used)
    (hb : s.heap p = some b) (hpc : s.consumer.EmptyHanded) (hpc' : pc'.EmptyHanded) :
    Core ((s.setBlock p { b with localTail := b.tail }).consumeAt pc') used spare held ∧
      ConsumerMove s ((s.setBlock p { b with localTail := b.tail }).consumeAt pc')
        used spare used spare held held := by
  have hpu : p ∈ used ++ spare := List.mem_append_left _ hp
  have htaken : pc'.taken = s.consumer.taken := hpc'.taken.trans hpc.taken.symm
  have hflight : pc'.inFlight = s.consumer.inFlight := hpc'.inFlight.trans hpc.inFlight.symm
  obtain ⟨hsound, hseen⟩ := (h.sound hpu hb).seeTail
  constructor
  · refine h.of_update { b with localTail := b.tail } hpu hb rfl (fun _ _ => rfl) rfl rfl rfl
      (fun q _ => congrFun htaken q) (fun _ _ => rfl) (fun _ _ => rfl) ?_ (h.nonempty p)
      (h.unused p) ?_ ?_ ?_ rfl rfl
    · show Block.Sound _ (pc'.taken p) (held p) (s.producer.built p)
      rw [htaken]
      exact hsound
    · intro _
      show Block.TailSeen _ (pc'.taken p) (held p) 0
      rw [htaken]
      exact hseen.mono (Nat.zero_le _)
    · rintro rfl
      show Block.FrontSeen _ (pc'.taken s.tailBlock) _ _ 0
      rw [htaken]
      exact h.frontSeen b hb
    · show s.accepted = s.removed ++ (pc'.inFlight ++ used.flatMap held)
      rw [hflight]
      exact h.history
  · refine ConsumerMove.of_update { b with localTail := b.tail } hp hb rfl (fun _ _ => rfl) rfl
      rfl rfl rfl (List.prefix_refl _) rfl rfl rfl rfl (fun q _ => congrFun htaken q)
      (fun built room hs => ?_) fun _ => rfl
    show Block.FrontSeen _ (pc'.taken p) _ _ _
    rw [htaken]
    exact hs

/-! ## What the consumer knows then -/

/-- An element has been found in the front block. -/
theorem consumerAt_atElement {op : ConsumerOp} {i : ℕ} (hp : p = s.frontBlock)
    (hb : s.heap p = some b) (hi : i = b.front) (hseen : b.TailSeen 0 (held p) 1) :
    ConsumerAt s used held (op.atElement p i) := by
  have hall : ∀ b', s.heap p = some b' → i = b'.front ∧ b'.TailSeen 0 (held p) 1 := by
    intro b' hb'
    rw [hb] at hb'
    exact Option.some.inj hb' ▸ ⟨hi, hseen⟩
  cases op with
  | tryDequeue => exact ⟨nofun, hp, hall⟩
  | pop => exact ⟨nofun, hp, hall⟩
  | peek => exact ⟨hseen.ne_nil, Or.inl hp, fun b' hb' => (hall b' hb').1⟩

/-- Where `tail` was read to be ahead of `front`, there is an element. -/
theorem Block.Sound.tailSeen_one {built : List α} (h : b.Sound 0 (held p) built)
    (hne : b.front ≠ b.tail) :
    ({ b with localTail := b.tail } : Block α).TailSeen 0 (held p) 1 := by
  refine h.seeTail.2.mono (List.length_pos_iff.2 fun he => ?_)
  exact hne (h.tail_eq_front_iff.2 he).symm

theorem Core.taken_zero (h : Core s used spare held) (hpc : s.consumer.EmptyHanded)
    (hp : p ∈ used ++ spare) (hb : s.heap p = some b) :
    b.Sound 0 (held p) (s.producer.built p) := by
  have hs := h.sound hp hb
  rwa [hpc.taken] at hs

/-! ## The steps

One lemma for each place the consumer can be at, as for the producer. -/

/-- The shape is kept, by a move the producer can count on. -/
def ConsumerKept (s s' : State α) (used spare : List BlockPtr) (held : BlockPtr → List α) : Prop :=
  ∃ used' spare' held', Core s' used' spare' held' ∧ ConsumerAt s' used' held' s'.consumer ∧
    ConsumerMove s s' used spare used' spare' held held'

/-! ### Looking for an element in the front block -/

theorem consumer_callElement {op : ConsumerOp} (hcore : Core s used spare held)
    (hpc : s.consumer.dequeuing = false) (hb : s.heap s.frontBlock = some b)
    (hne : b.front ≠ b.localTail) :
    ConsumerKept s (s.consumeAt (op.atElement s.frontBlock b.front)) used spare held := by
  have hempty := ConsumerPc.EmptyHanded.of_not_dequeuing hpc
  have hs := hcore.taken_zero hempty hcore.front_mem_ring hb
  have hseen := hcore.tailSeen b hb
  rw [hempty.taken] at hseen
  obtain ⟨hcore', hmove⟩ := hcore.consumeAt (op.atElement s.frontBlock b.front) hempty
    (.atElement op s.frontBlock b.front)
  exact ⟨used, spare, held, hcore', consumerAt_atElement rfl hb rfl (hseen.some hs hne), hmove⟩

theorem consumer_callEmpty {op : ConsumerOp} (hcore : Core s used spare held)
    (hpc : s.consumer.dequeuing = false) (hb : s.heap s.frontBlock = some b) :
    ConsumerKept s (s.consumeAt (.readTail op s.frontBlock b.front)) used spare held := by
  have hempty := ConsumerPc.EmptyHanded.of_not_dequeuing hpc
  obtain ⟨hcore', hmove⟩ := hcore.consumeAt (.readTail op s.frontBlock b.front) hempty ⟨rfl, rfl⟩
  refine ⟨used, spare, held, hcore', ⟨rfl, fun b' hb' => ?_⟩, hmove⟩
  exact congrArg Block.front (Option.some.inj (hb.symm.trans hb'))

theorem consumer_readElement {op : ConsumerOp} {i : ℕ} (hcore : Core s used spare held)
    (hat : ConsumerAt s used held s.consumer) (hpc : s.consumer = .readTail op p i)
    (hb : s.heap p = some b) (hne : i ≠ b.tail) :
    ConsumerKept s ((s.setBlock p { b with localTail := b.tail }).consumeAt (op.atElement p i))
      used spare held := by
  have hempty := ConsumerPc.EmptyHanded.of_eq hpc ⟨rfl, rfl⟩
  rw [hpc] at hat
  obtain ⟨rfl, hi⟩ := hat
  have hs := hcore.taken_zero hempty hcore.front_mem_ring hb
  obtain ⟨hcore', hmove⟩ := hcore.seeTail (op.atElement s.frontBlock i) hcore.front_mem hb hempty
    (.atElement op s.frontBlock i)
  refine ⟨used, spare, held, hcore', ?_, hmove⟩
  refine consumerAt_atElement (b := { b with localTail := b.tail }) rfl
    (Function.update_self _ _ _) (hi b hb) (hs.tailSeen_one ?_)
  rw [← hi b hb]
  exact hne

theorem consumer_readEmpty {op : ConsumerOp} {i : ℕ} (hcore : Core s used spare held)
    (hat : ConsumerAt s used held s.consumer) (hpc : s.consumer = .readTail op p i)
    (hb : s.heap p = some b) :
    ConsumerKept s
      ((s.setBlock p { b with localTail := b.tail }).consumeAt (.readTailBlock op p))
      used spare held := by
  have hempty := ConsumerPc.EmptyHanded.of_eq hpc ⟨rfl, rfl⟩
  rw [hpc] at hat
  obtain ⟨rfl, -⟩ := hat
  obtain ⟨hcore', hmove⟩ := hcore.seeTail (.readTailBlock op s.frontBlock) hcore.front_mem hb
    hempty ⟨rfl, rfl⟩
  exact ⟨used, spare, held, hcore', rfl, hmove⟩

theorem consumer_nothing {op : ConsumerOp} (hcore : Core s used spare held)
    (hpc : s.consumer = .readTailBlock op p) :
    ConsumerKept s (s.consumeAt (.returned op.nothing)) used spare held := by
  have hempty := ConsumerPc.EmptyHanded.of_eq hpc ⟨rfl, rfl⟩
  obtain ⟨hcore', hmove⟩ := hcore.consumeAt (.returned op.nothing) hempty ⟨rfl, rfl⟩
  refine ⟨used, spare, held, hcore', ?_, hmove⟩
  cases op with
  | _ => trivial

/-! ### Where there is another block in use -/

theorem consumer_goAhead {op : ConsumerOp} (hcore : Core s used spare held)
    (hat : ConsumerAt s used held s.consumer) (hpc : s.consumer = .readTailBlock op p)
    (hne : p ≠ s.tailBlock) : ConsumerKept s (s.consumeAt (.rereadTail op)) used spare held := by
  have hempty := ConsumerPc.EmptyHanded.of_eq hpc ⟨rfl, rfl⟩
  rw [hpc] at hat
  obtain rfl : p = s.frontBlock := hat
  obtain ⟨hcore', hmove⟩ := hcore.consumeAt (.rereadTail op) hempty ⟨rfl, rfl⟩
  refine ⟨used, spare, held, hcore', ?_, hmove⟩
  exact not_not.1 fun hu => hne (hcore.front_eq_tail_iff.2 hu)

theorem consumer_rereadElement {op : ConsumerOp} (hcore : Core s used spare held)
    (hpc : s.consumer = .rereadTail op) (hb : s.heap s.frontBlock = some b)
    (hne : b.front ≠ b.tail) :
    ConsumerKept s
      ((s.setBlock s.frontBlock { b with localTail := b.tail }).consumeAt
        (op.atElement s.frontBlock b.front)) used spare held := by
  have hempty := ConsumerPc.EmptyHanded.of_eq hpc ⟨rfl, rfl⟩
  have hs := hcore.taken_zero hempty hcore.front_mem_ring hb
  obtain ⟨hcore', hmove⟩ := hcore.seeTail (op.atElement s.frontBlock b.front) hcore.front_mem hb
    hempty (.atElement op s.frontBlock b.front)
  refine ⟨used, spare, held, hcore', ?_, hmove⟩
  exact consumerAt_atElement (b := { b with localTail := b.tail }) rfl
    (Function.update_self _ _ _) rfl (hs.tailSeen_one hne)

theorem consumer_rereadEmpty {op : ConsumerOp} (hcore : Core s used spare held)
    (hat : ConsumerAt s used held s.consumer) (hpc : s.consumer = .rereadTail op)
    (hb : s.heap s.frontBlock = some b) (heq : b.front = b.tail) :
    ConsumerKept s
      ((s.setBlock s.frontBlock { b with localTail := b.tail }).consumeAt
        (.readNext op s.frontBlock)) used spare held := by
  have hempty := ConsumerPc.EmptyHanded.of_eq hpc ⟨rfl, rfl⟩
  rw [hpc] at hat
  have hs := hcore.taken_zero hempty hcore.front_mem_ring hb
  obtain ⟨hcore', hmove⟩ := hcore.seeTail (.readNext op s.frontBlock) hcore.front_mem hb hempty
    ⟨rfl, rfl⟩
  exact ⟨used, spare, held, hcore', ⟨rfl, hs.tail_eq_front_iff.1 heq.symm, hat⟩, hmove⟩

theorem consumer_readNext {op : ConsumerOp} (hcore : Core s used spare held)
    (hat : ConsumerAt s used held s.consumer) (hpc : s.consumer = .readNext op p)
    (hb : s.heap p = some b) :
    ConsumerKept s (s.consumeAt (.readNextTail op b.next)) used spare held := by
  have hempty := ConsumerPc.EmptyHanded.of_eq hpc ⟨rfl, rfl⟩
  rw [hpc] at hat
  obtain ⟨rfl, he, hu⟩ := hat
  obtain ⟨q, l, hused, hnext⟩ := hcore.next_front hu
  rw [Core.next_eq hb] at hnext
  obtain ⟨hcore', hmove⟩ := hcore.consumeAt (.readNextTail op b.next) hempty ⟨rfl, rfl⟩
  refine ⟨used, spare, held, hcore', ⟨he, ?_⟩, hmove⟩
  rw [hused, hnext]
  rfl

theorem consumer_peekNext {q : BlockPtr} (hcore : Core s used spare held)
    (hat : ConsumerAt s used held s.consumer) (hpc : s.consumer = .readNextTail .peek q)
    (hb : s.heap q = some b) (hne : b.front ≠ b.tail) :
    ConsumerKept s (s.consumeAt (.returned (.peeked (some (q, b.front))))) used spare held := by
  have hempty := ConsumerPc.EmptyHanded.of_eq hpc ⟨rfl, rfl⟩
  rw [hpc] at hat
  obtain ⟨he, hq⟩ := hat
  have hqu : q ∈ used := List.mem_of_getElem? hq
  have hs := hcore.taken_zero hempty (List.mem_append_left _ hqu) hb
  obtain ⟨hcore', hmove⟩ := hcore.consumeAt
    (.returned (.peeked (some (q, b.front)))) hempty ⟨rfl, rfl⟩
  refine ⟨used, spare, held, hcore', ⟨?_, Or.inr ⟨he, hq⟩, fun b' hb' => ?_⟩, hmove⟩
  · exact fun hnil => hne (hs.tail_eq_front_iff.2 hnil).symm
  · exact congrArg Block.front (Option.some.inj (hb.symm.trans hb'))

theorem consumer_readNextTail {op : ConsumerOp} {q : BlockPtr} (hcore : Core s used spare held)
    (hat : ConsumerAt s used held s.consumer) (hpc : s.consumer = .readNextTail op q)
    (hb : s.heap q = some b) (hne : b.front ≠ b.tail) (hop : op ≠ .peek) :
    ConsumerKept s
      ((s.setBlock q { b with localTail := b.tail }).consumeAt (.storeFrontBlock op q b.front))
      used spare held := by
  have hempty := ConsumerPc.EmptyHanded.of_eq hpc ⟨rfl, rfl⟩
  rw [hpc] at hat
  obtain ⟨he, hq⟩ := hat
  have hqu : q ∈ used := List.mem_of_getElem? hq
  have hs := hcore.taken_zero hempty (List.mem_append_left _ hqu) hb
  obtain ⟨hcore', hmove⟩ := hcore.seeTail (.storeFrontBlock op q b.front) hqu hb hempty ⟨rfl, rfl⟩
  refine ⟨used, spare, held, hcore', ⟨hop, he, hq, fun b' hb' => ?_⟩, hmove⟩
  obtain rfl := eq_of_update hb'
  exact ⟨rfl, hs.tailSeen_one hne⟩

/-- The front block goes from the head of the circle to its end. -/
theorem Core.storeFrontBlock {op : ConsumerOp} {q : BlockPtr} {i : ℕ} {m : List BlockPtr}
    (h : Core s (s.frontBlock :: q :: m) spare held) (hempty : s.consumer.EmptyHanded)
    (hprod : ProducerAt s (s.frontBlock :: q :: m) spare held s.producer)
    (he : held s.frontBlock = []) (hseen : ∀ b, s.heap q = some b → b.TailSeen 0 (held q) 1) :
    Core { s.consumeAt (.take op q i) with frontBlock := q }
      (q :: m) (spare ++ [s.frontBlock]) held := by
  have hperm : (s.frontBlock :: q :: m ++ spare).Perm
      ((q :: m) ++ (spare ++ [s.frontBlock])) := by
    rw [← List.append_assoc]
    exact (List.perm_append_singleton _ _).symm
  have hmem : ∀ p, p ∈ (q :: m) ++ (spare ++ [s.frontBlock]) ↔
      p ∈ s.frontBlock :: q :: m ++ spare := fun p => hperm.mem_iff.symm
  refine ⟨hperm.nodup_iff.1 h.nodup, rfl, ?_, ?_, fun p hp => ?_, fun p hp => ?_,
    fun p hp => ?_, fun b hb => ?_, fun b hb => ?_, ?_, h.largest, fun p b hb => ?_⟩
  · have hlast := h.last
    rwa [List.getLast?_cons_cons] at hlast
  · rw [← List.append_assoc]
    exact Circular.rotate (l := q :: m ++ spare) h.circular
  · have hblock := h.block p ((hmem p).1 hp)
    rw [hempty.taken] at hblock
    exact hblock
  · exact h.nonempty p (List.mem_cons_of_mem q hp)
  · rcases List.mem_append.1 hp with hp | hp
    · exact h.unused p hp
    · obtain rfl := List.mem_singleton.1 hp
      exact he.trans (hprod.ahead_eq_nil h h.front_mem).symm
  · exact (hseen b hb).mono (Nat.zero_le _)
  · have hfs := h.frontSeen b hb
    rw [hempty.taken] at hfs
    exact hfs
  · have hhist := h.history
    rw [hempty.inFlight, List.flatMap_cons, he, List.nil_append] at hhist
    exact hhist
  · exact (h.allocated p b hb).imp_left (hmem p).2

theorem consumer_storeFrontBlock {op : ConsumerOp} {q : BlockPtr} {i : ℕ}
    (hcore : Core s used spare held) (hat : ConsumerAt s used held s.consumer)
    (hprod : ProducerAt s used spare held s.producer)
    (hpc : s.consumer = .storeFrontBlock op q i) :
    ConsumerKept s { s.consumeAt (.take op q i) with frontBlock := q } used spare held := by
  have hempty := ConsumerPc.EmptyHanded.of_eq hpc ⟨rfl, rfl⟩
  rw [hpc] at hat
  obtain ⟨hop, he, hq, hseen⟩ := hat
  obtain ⟨l, hused⟩ := hcore.exists_cons
  obtain ⟨m, rfl⟩ : ∃ m, l = q :: m := by
    rw [hused] at hq
    cases l with
    | nil => cases hq
    | cons r m => exact ⟨m, by rw [Option.some.inj hq]⟩
  subst hused
  refine ⟨q :: m, spare ++ [s.frontBlock], held,
    hcore.storeFrontBlock hempty hprod he fun b hb => (hseen b hb).2, ⟨hop, rfl, hseen⟩, rfl, rfl,
    rfl, List.prefix_refl _, rfl, rfl, Or.inr ⟨rfl, rfl⟩,
    fun p b hb => ⟨b, hb, rfl, rfl, fun built room hs => ?_⟩, fun _ _ => rfl, fun _ _ => rfl⟩
  rw [hempty.taken] at hs
  exact hs

/-! ### Taking the element -/

/-- Only the front block has a slot that is not given back. -/
theorem taken_storeFront {op : ConsumerOp} {i : ℕ} {x : α} (hempty : s.consumer.EmptyHanded) :
    ∀ q, q ≠ s.frontBlock →
      (ConsumerPc.storeFront op s.frontBlock i x).taken q = s.consumer.taken q := by
  intro q hq
  rw [hempty.taken]
  exact if_neg hq

/-- The first element of the front block is moved out. -/
theorem Core.take {op : ConsumerOp} {i : ℕ} {x : α} {ys : List α} (h : Core s used spare held)
    (hempty : s.consumer.EmptyHanded) (hb : s.heap s.frontBlock = some b)
    (hheld : held s.frontBlock = x :: ys) (hseen : b.TailSeen 0 (x :: ys) 1) :
    Core ((s.setBlock s.frontBlock { b with data := Function.update b.data b.front none }).consumeAt
      (.storeFront op s.frontBlock i x)) used spare (Function.update held s.frontBlock ys) := by
  have hs := h.taken_zero hempty h.front_mem_ring hb
  rw [hheld] at hs
  obtain ⟨l, hused⟩ := h.exists_cons
  have hfl : s.frontBlock ∉ l := by
    have hnd := (List.nodup_append.1 h.nodup).1
    rw [hused] at hnd
    exact (List.nodup_cons.1 hnd).1
  set pc' : ConsumerPc α := .storeFront op s.frontBlock i x with hpc'
  have htaken : pc'.taken s.frontBlock = 1 := if_pos rfl
  refine h.of_update _ h.front_mem_ring hb rfl (fun q hq => Function.update_of_ne hq _ _) rfl rfl
    rfl (taken_storeFront hempty) (fun _ _ => rfl) (fun _ _ => rfl) ?_ ?_ ?_ ?_ ?_ ?_ rfl rfl
  · rw [Function.update_self]
    show Block.Sound _ (pc'.taken s.frontBlock) ys _
    rw [htaken]
    exact hs.take
  · intro hmem
    rw [hused] at hmem
    exact absurd hmem hfl
  · exact fun hsp => absurd hsp (h.not_spare h.front_mem)
  · intro _
    rw [Function.update_self]
    show Block.TailSeen _ (pc'.taken s.frontBlock) ys 0
    rw [htaken]
    exact hseen.take
  · intro hft
    have hfs := h.frontSeen b (hft ▸ hb)
    rw [← hft, hempty.taken, hheld] at hfs
    rw [Function.update_self]
    show Block.FrontSeen _ (pc'.taken s.frontBlock) ys _ 0
    rw [htaken]
    exact hfs.take
  · have hhist := h.history
    rw [hempty.inFlight, hused, List.flatMap_cons, hheld] at hhist
    rw [hused, List.flatMap_cons, Function.update_self, flatMap_update hfl]
    exact hhist

theorem consumer_take {op : ConsumerOp} {i : ℕ} {x : α} (hcore : Core s used spare held)
    (hat : ConsumerAt s used held s.consumer) (hpc : s.consumer = .take op p i)
    (hb : s.heap p = some b) (hx : b.data i = some x) :
    ConsumerKept s
      ((s.setBlock p { b with data := Function.update b.data i none }).consumeAt
        (.storeFront op p ((i + 1) &&& b.sizeMask) x)) used spare held := by
  have hempty := ConsumerPc.EmptyHanded.of_eq hpc ⟨rfl, rfl⟩
  rw [hpc] at hat
  obtain ⟨hop, rfl, hfacts⟩ := hat
  obtain ⟨rfl, hseen⟩ := hfacts b hb
  have hs := hcore.taken_zero hempty hcore.front_mem_ring hb
  obtain ⟨y, ys, hheld⟩ := List.exists_cons_of_ne_nil hseen.ne_nil
  rw [hheld] at hs hseen
  obtain rfl : x = y := Option.some.inj (hx.symm.trans hs.first)
  refine ⟨used, spare, Function.update held s.frontBlock ys, hcore.take hempty hb hheld hseen,
    ⟨hop, rfl, fun b' hb' => ?_⟩, ?_⟩
  · obtain rfl := eq_of_update hb'
    rfl
  · set pc' : ConsumerPc α := .storeFront op s.frontBlock ((b.front + 1) &&& b.sizeMask) x
    have htaken : pc'.taken s.frontBlock = 1 := if_pos rfl
    refine ConsumerMove.of_update _ hcore.front_mem hb rfl
      (fun q hq => Function.update_of_ne hq _ _) rfl rfl rfl rfl (List.prefix_refl _) rfl rfl
      rfl rfl (taken_storeFront hempty) (fun built room hfs => ?_) fun hne => absurd rfl hne
    rw [hempty.taken, hheld] at hfs
    rw [Function.update_self]
    show Block.FrontSeen _ (pc'.taken s.frontBlock) ys built room
    rw [htaken]
    exact hfs.take

/-- The slot is given back. -/
theorem Core.storeFront {op : ConsumerOp} {i : ℕ} {x : α} (h : Core s used spare held)
    (hpc : s.consumer = .storeFront op s.frontBlock i x) (hb : s.heap s.frontBlock = some b) :
    Core { (s.setBlock s.frontBlock { b with front := (b.front + 1) &&& b.sizeMask }).consumeAt
        (.returned (op.gives x)) with removed := s.removed ++ [x] } used spare held ∧
      ConsumerMove s { (s.setBlock s.frontBlock
        { b with front := (b.front + 1) &&& b.sizeMask }).consumeAt (.returned (op.gives x)) with
          removed := s.removed ++ [x] } used spare used spare held held := by
  have htaken : s.consumer.taken s.frontBlock = 1 := by
    rw [hpc]
    exact if_pos rfl
  have hother : ∀ q, q ≠ s.frontBlock → 0 = s.consumer.taken q := by
    intro q hq
    rw [hpc]
    exact (if_neg hq).symm
  have hs := h.sound h.front_mem_ring hb
  rw [htaken] at hs
  constructor
  · refine h.of_update _ h.front_mem_ring hb rfl (fun _ _ => rfl) rfl rfl rfl hother
      (fun _ _ => rfl) (fun _ _ => rfl) hs.release (h.nonempty _) (h.unused _) ?_ ?_ ?_ rfl rfl
    · intro _
      have hts := h.tailSeen b hb
      rw [htaken] at hts
      exact hts.release hs
    · intro hft
      have hfs := h.frontSeen b (hft ▸ hb)
      rw [← hft, htaken] at hfs
      exact hfs.release hs
    · have hhist := h.history
      rw [hpc] at hhist
      show s.accepted = s.removed ++ [x] ++ ([] ++ used.flatMap held)
      rw [hhist]
      simp [ConsumerPc.inFlight]
  · refine ConsumerMove.of_update _ h.front_mem hb rfl (fun _ _ => rfl) rfl rfl rfl rfl
      (List.prefix_append _ _) rfl rfl rfl rfl hother (fun built room hfs => ?_) fun _ => rfl
    rw [htaken] at hfs
    exact hfs.release hs

theorem consumer_storeFront {op : ConsumerOp} {i : ℕ} {x : α} (hcore : Core s used spare held)
    (hat : ConsumerAt s used held s.consumer) (hpc : s.consumer = .storeFront op p i x)
    (hb : s.heap p = some b) :
    ConsumerKept s
      { (s.setBlock p { b with front := i }).consumeAt (.returned (op.gives x)) with
        removed := s.removed ++ [x] } used spare held := by
  rw [hpc] at hat
  obtain ⟨hop, rfl, hfacts⟩ := hat
  obtain rfl := hfacts b hb
  obtain ⟨hcore', hmove⟩ := hcore.storeFront hpc hb
  refine ⟨used, spare, held, hcore', ?_, hmove⟩
  show ConsumerAt _ used held (.returned (op.gives x))
  cases op with
  | tryDequeue => exact List.getLast?_concat
  | pop => trivial
  | peek => trivial

/-- **A step of the consumer keeps the shape**, and is a move the producer
can count on. -/
theorem ConsumerStep.sound (h : ConsumerStep s a s') (hcore : Core s used spare held)
    (hat : ConsumerAt s used held s.consumer) (hprod : ProducerAt s used spare held s.producer) :
    ConsumerKept s s' used spare held := by
  cases h with
  | callElement hpc hb hne => exact consumer_callElement hcore hpc hb hne
  | callEmpty hpc hb => exact consumer_callEmpty hcore hpc hb
  | readElement hpc hb hne => exact consumer_readElement hcore hat hpc hb hne
  | readEmpty hpc hb => exact consumer_readEmpty hcore hat hpc hb
  | goAhead hpc hne => exact consumer_goAhead hcore hat hpc hne
  | nothing hpc => exact consumer_nothing hcore hpc
  | rereadElement hpc hb hne => exact consumer_rereadElement hcore hpc hb hne
  | rereadEmpty hpc hb heq => exact consumer_rereadEmpty hcore hat hpc hb heq
  | readNext hpc hb => exact consumer_readNext hcore hat hpc hb
  | peekNext hpc hb hne => exact consumer_peekNext hcore hat hpc hb hne
  | readNextTail hpc hb hne hop => exact consumer_readNextTail hcore hat hpc hb hne hop
  | storeFrontBlock hpc => exact consumer_storeFrontBlock hcore hat hprod hpc
  | take hpc hb hx => exact consumer_take hcore hat hpc hb hx
  | storeFront hpc hb => exact consumer_storeFront hcore hat hpc hb

end Queue

end AppServer
