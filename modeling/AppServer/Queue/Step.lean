import AppServer.Queue.Model

/-!
# What a step of the queue can do

`ProducerStep` and `ConsumerStep` list the steps of the two threads, one
constructor a branch of the source, with where the thread stood, the block it
found and the state it leaves. `step_cases` says there are no others.
-/

namespace AppServer

namespace Queue

variable {α : Type*}

/-- The call of `inner_enqueue` with this mode. -/
def AllocationMode.call : AllocationMode → α → Action α
  | .canAlloc, x => .enqueue x
  | .cannotAlloc, x => .tryEnqueue x

/-- The call of this function. -/
def ConsumerOp.call : ConsumerOp → Action α
  | .tryDequeue => .tryDequeue
  | .pop => .pop
  | .peek => .peek

/-- The steps of the producer. -/
inductive ProducerStep (maxBlockSize : ℕ) (s : State α) : Action α → State α → Prop where
  /-- A call finds room by `localFront`. -/
  | callRoom {mode : AllocationMode} {x : α} {b : Block α}
      (hpc : s.producer.enqueuing = false) (hb : s.heap s.tailBlock = some b)
      (hroom : (b.tail + 1) &&& b.sizeMask ≠ b.localFront) :
      ProducerStep maxBlockSize s (mode.call x)
        (s.produceAt (.construct x s.tailBlock b.tail ((b.tail + 1) &&& b.sizeMask)))
  /-- A call finds none. -/
  | callFull {mode : AllocationMode} {x : α} {b : Block α}
      (hpc : s.producer.enqueuing = false) (hb : s.heap s.tailBlock = some b)
      (hfull : (b.tail + 1) &&& b.sizeMask = b.localFront) :
      ProducerStep maxBlockSize s (mode.call x)
        (s.produceAt (.readFront mode x s.tailBlock b.tail ((b.tail + 1) &&& b.sizeMask)))
  /-- There is room by `front`. -/
  | readRoom {m : BlockPtr} {mode : AllocationMode} {x : α} {p : BlockPtr} {i j : ℕ} {b : Block α}
      (hpc : s.producer = .readFront mode x p i j) (hb : s.heap p = some b)
      (hroom : j ≠ b.front) :
      ProducerStep maxBlockSize s (.produce m)
        ((s.setBlock p { b with localFront := b.front }).produceAt (.construct x p i j))
  /-- There is none: the tail block is full. -/
  | readFull {m : BlockPtr} {mode : AllocationMode} {x : α} {p : BlockPtr} {i j : ℕ} {b : Block α}
      (hpc : s.producer = .readFront mode x p i j) (hb : s.heap p = some b)
      (hfull : j = b.front) :
      ProducerStep maxBlockSize s (.produce m)
        ((s.setBlock p { b with localFront := b.front }).produceAt (.readFrontBlock mode x p))
  /-- The element is constructed in the tail block. -/
  | construct {m : BlockPtr} {x : α} {p : BlockPtr} {i j : ℕ} {b : Block α}
      (hpc : s.producer = .construct x p i j) (hb : s.heap p = some b) (hfree : b.data i = none) :
      ProducerStep maxBlockSize s (.produce m)
        ((s.setBlock p { b with data := Function.update b.data i (some x) }).produceAt
          (.storeTail x p j))
  /-- `tail` is moved on. -/
  | storeTail {m : BlockPtr} {x : α} {p : BlockPtr} {j : ℕ} {b : Block α}
      (hpc : s.producer = .storeTail x p j) (hb : s.heap p = some b) :
      ProducerStep maxBlockSize s (.produce m)
        { (s.setBlock p { b with tail := j }).produceAt (.returned true) with
          accepted := s.accepted ++ [x] }
  /-- The block ahead is free. -/
  | goAhead {m : BlockPtr} {mode : AllocationMode} {x : α} {p : BlockPtr} {b : Block α}
      (hpc : s.producer = .readFrontBlock mode x p) (hb : s.heap p = some b)
      (hfree : b.next ≠ s.frontBlock) :
      ProducerStep maxBlockSize s (.produce m) (s.produceAt (.readNextFront x b.next))
  /-- It is not, and a new block may be allocated. -/
  | goAllocate {m : BlockPtr} {x : α} {p : BlockPtr} {b : Block α}
      (hpc : s.producer = .readFrontBlock .canAlloc x p) (hb : s.heap p = some b)
      (hring : b.next = s.frontBlock) :
      ProducerStep maxBlockSize s (.produce m) (s.produceAt (.allocate x p))
  /-- It is not, and none may. -/
  | refuse {m : BlockPtr} {x : α} {p : BlockPtr} {b : Block α}
      (hpc : s.producer = .readFrontBlock .cannotAlloc x p) (hb : s.heap p = some b)
      (hring : b.next = s.frontBlock) :
      ProducerStep maxBlockSize s (.produce m) (s.produceAt (.returned false))
  /-- The block ahead is empty. -/
  | readNextFront {m : BlockPtr} {x : α} {q : BlockPtr} {b : Block α}
      (hpc : s.producer = .readNextFront x q) (hb : s.heap q = some b)
      (hempty : b.front = b.tail) :
      ProducerStep maxBlockSize s (.produce m)
        ((s.setBlock q { b with localFront := b.front }).produceAt (.constructNext x q b.tail))
  /-- The element is constructed in the block ahead. -/
  | constructNext {m : BlockPtr} {x : α} {q : BlockPtr} {i : ℕ} {b : Block α}
      (hpc : s.producer = .constructNext x q i) (hb : s.heap q = some b) (hfree : b.data i = none) :
      ProducerStep maxBlockSize s (.produce m)
        ((s.setBlock q { b with data := Function.update b.data i (some x) }).produceAt
          (.storeNextTail x q i))
  /-- The `tail` of the block ahead is moved on. -/
  | storeNextTail {m : BlockPtr} {x : α} {q : BlockPtr} {i : ℕ} {b : Block α}
      (hpc : s.producer = .storeNextTail x q i) (hb : s.heap q = some b) :
      ProducerStep maxBlockSize s (.produce m)
        ((s.setBlock q { b with tail := (i + 1) &&& b.sizeMask }).produceAt (.storeTailBlock x q))
  /-- There is no memory for a block. -/
  | noMemory {x : α} {p : BlockPtr} (hpc : s.producer = .allocate x p) :
      ProducerStep maxBlockSize s (.produce nullptr) (s.produceAt (.returned false))
  /-- A block is made, with the element in it. -/
  | allocate {m : BlockPtr} {x : α} {p : BlockPtr} {b : Block α}
      (hpc : s.producer = .allocate x p) (hb : s.heap p = some b) (hm : m ≠ nullptr)
      (hnew : s.heap m = none) :
      ProducerStep maxBlockSize s (.produce m)
        { (s.setBlock m { makeBlock α (newBlockSize maxBlockSize s.largestBlockSize) with
              data := Function.update (fun _ => none) 0 (some x)
              tail := 1
              localTail := 1
              next := b.next }).produceAt (.linkNext x p m) with
          largestBlockSize := newBlockSize maxBlockSize s.largestBlockSize }
  /-- It is linked in. -/
  | linkNext {m : BlockPtr} {x : α} {p q : BlockPtr} {b : Block α}
      (hpc : s.producer = .linkNext x p q) (hb : s.heap p = some b) :
      ProducerStep maxBlockSize s (.produce m)
        ((s.setBlock p { b with next := q }).produceAt (.storeTailBlock x q))
  /-- `tailBlock` is moved on. -/
  | storeTailBlock {m : BlockPtr} {x : α} {q : BlockPtr}
      (hpc : s.producer = .storeTailBlock x q) :
      ProducerStep maxBlockSize s (.produce m)
        { s.produceAt (.returned true) with tailBlock := q, accepted := s.accepted ++ [x] }

/-- The steps of the consumer. -/
inductive ConsumerStep (s : State α) : Action α → State α → Prop where
  /-- A call finds an element by `localTail`. -/
  | callElement {op : ConsumerOp} {b : Block α}
      (hpc : s.consumer.dequeuing = false) (hb : s.heap s.frontBlock = some b)
      (hne : b.front ≠ b.localTail) :
      ConsumerStep s op.call (s.consumeAt (op.atElement s.frontBlock b.front))
  /-- A call finds none. -/
  | callEmpty {op : ConsumerOp} {b : Block α}
      (hpc : s.consumer.dequeuing = false) (hb : s.heap s.frontBlock = some b)
      (heq : b.front = b.localTail) :
      ConsumerStep s op.call (s.consumeAt (.readTail op s.frontBlock b.front))
  /-- There is an element by `tail`. -/
  | readElement {op : ConsumerOp} {p : BlockPtr} {i : ℕ} {b : Block α}
      (hpc : s.consumer = .readTail op p i) (hb : s.heap p = some b) (hne : i ≠ b.tail) :
      ConsumerStep s .consume
        ((s.setBlock p { b with localTail := b.tail }).consumeAt (op.atElement p i))
  /-- There is none: the front block is empty. -/
  | readEmpty {op : ConsumerOp} {p : BlockPtr} {i : ℕ} {b : Block α}
      (hpc : s.consumer = .readTail op p i) (hb : s.heap p = some b) (heq : i = b.tail) :
      ConsumerStep s .consume
        ((s.setBlock p { b with localTail := b.tail }).consumeAt (.readTailBlock op p))
  /-- There is another block ahead. -/
  | goAhead {op : ConsumerOp} {p : BlockPtr} (hpc : s.consumer = .readTailBlock op p)
      (hne : p ≠ s.tailBlock) : ConsumerStep s .consume (s.consumeAt (.rereadTail op))
  /-- There is none. -/
  | nothing {op : ConsumerOp} {p : BlockPtr} (hpc : s.consumer = .readTailBlock op p)
      (heq : p = s.tailBlock) : ConsumerStep s .consume (s.consumeAt (.returned op.nothing))
  /-- The front block is not empty after all. -/
  | rereadElement {op : ConsumerOp} {b : Block α} (hpc : s.consumer = .rereadTail op)
      (hb : s.heap s.frontBlock = some b) (hne : b.front ≠ b.tail) :
      ConsumerStep s .consume
        ((s.setBlock s.frontBlock { b with localTail := b.tail }).consumeAt
          (op.atElement s.frontBlock b.front))
  /-- It is. -/
  | rereadEmpty {op : ConsumerOp} {b : Block α} (hpc : s.consumer = .rereadTail op)
      (hb : s.heap s.frontBlock = some b) (heq : b.front = b.tail) :
      ConsumerStep s .consume
        ((s.setBlock s.frontBlock { b with localTail := b.tail }).consumeAt
          (.readNext op s.frontBlock))
  /-- The next block is found. -/
  | readNext {op : ConsumerOp} {p : BlockPtr} {b : Block α}
      (hpc : s.consumer = .readNext op p) (hb : s.heap p = some b) :
      ConsumerStep s .consume (s.consumeAt (.readNextTail op b.next))
  /-- `peek` finds an element there. -/
  | peekNext {q : BlockPtr} {b : Block α}
      (hpc : s.consumer = .readNextTail .peek q) (hb : s.heap q = some b)
      (hne : b.front ≠ b.tail) :
      ConsumerStep s .consume (s.consumeAt (.returned (.peeked (some (q, b.front)))))
  /-- `try_dequeue` or `pop` finds an element there. -/
  | readNextTail {op : ConsumerOp} {q : BlockPtr} {b : Block α}
      (hpc : s.consumer = .readNextTail op q) (hb : s.heap q = some b)
      (hne : b.front ≠ b.tail) (hop : op ≠ .peek) :
      ConsumerStep s .consume
        ((s.setBlock q { b with localTail := b.tail }).consumeAt (.storeFrontBlock op q b.front))
  /-- `frontBlock` is moved on. -/
  | storeFrontBlock {op : ConsumerOp} {q : BlockPtr} {i : ℕ}
      (hpc : s.consumer = .storeFrontBlock op q i) :
      ConsumerStep s .consume { s.consumeAt (.take op q i) with frontBlock := q }
  /-- The element is moved out. -/
  | take {op : ConsumerOp} {p : BlockPtr} {i : ℕ} {b : Block α} {x : α}
      (hpc : s.consumer = .take op p i) (hb : s.heap p = some b) (hx : b.data i = some x) :
      ConsumerStep s .consume
        ((s.setBlock p { b with data := Function.update b.data i none }).consumeAt
          (.storeFront op p ((i + 1) &&& b.sizeMask) x))
  /-- `front` is moved on. -/
  | storeFront {op : ConsumerOp} {p : BlockPtr} {i : ℕ} {b : Block α} {x : α}
      (hpc : s.consumer = .storeFront op p i x) (hb : s.heap p = some b) :
      ConsumerStep s .consume
        { (s.setBlock p { b with front := i }).consumeAt (.returned (op.gives x)) with
          removed := s.removed ++ [x] }

variable {maxBlockSize : ℕ} {s s' : State α} {a : Action α}

/-! ## There are no others -/

theorem constructAt_eq_some {b b' : Block α} {i : ℕ} {x : α} :
    constructAt b i x = some b' ↔
      b.data i = none ∧ b' = { b with data := Function.update b.data i (some x) } := by
  rw [constructAt]
  cases hd : b.data i with
  | none => simp [eq_comm]
  | some y => simp

theorem newBlock_eq {size : ℕ} {x : α} {next : BlockPtr} :
    newBlock size x next = some { makeBlock α size with
      data := Function.update (fun _ => none) 0 (some x)
      tail := 1
      localTail := 1
      next := next } := rfl

theorem innerEnqueue_cases (mode : AllocationMode) {x : α}
    (h : innerEnqueue s mode x = some s') : ProducerStep maxBlockSize s (mode.call x) s' := by
  rw [innerEnqueue] at h
  cases hpc : s.producer.enqueuing with
  | true => simp [hpc] at h
  | false =>
    cases hb : s.heap s.tailBlock with
    | none => simp [hpc, hb] at h
    | some b =>
      simp only [hpc, hb, Bool.false_eq_true, if_false] at h
      split at h
      · obtain rfl := Option.some.inj h
        exact .callRoom hpc hb ‹_›
      · obtain rfl := Option.some.inj h
        exact .callFull hpc hb (not_not.1 ‹_›)

theorem advanceProducer_cases {m : BlockPtr}
    (h : advanceProducer maxBlockSize s m s.producer = some s') :
    ProducerStep maxBlockSize s (.produce m) s' := by
  cases hpc : s.producer with
  | idle => simp [hpc, advanceProducer] at h
  | readFront mode x p i j =>
    simp only [hpc, advanceProducer, Option.map_eq_some_iff] at h
    obtain ⟨b, hb, rfl⟩ := h
    split
    · exact .readRoom hpc hb ‹_›
    · exact .readFull hpc hb (not_not.1 ‹_›)
  | construct x p i j =>
    simp only [hpc, advanceProducer, Option.bind_eq_some_iff, Option.map_eq_some_iff,
      constructAt_eq_some] at h
    obtain ⟨b, hb, _, ⟨hfree, rfl⟩, rfl⟩ := h
    exact .construct hpc hb hfree
  | storeTail x p j =>
    simp only [hpc, advanceProducer, Option.map_eq_some_iff] at h
    obtain ⟨b, hb, rfl⟩ := h
    exact .storeTail hpc hb
  | readFrontBlock mode x p =>
    simp only [hpc, advanceProducer, Option.map_eq_some_iff] at h
    obtain ⟨b, hb, rfl⟩ := h
    split
    · exact .goAhead hpc hb ‹_›
    · have hring := not_not.1 ‹_›
      cases mode with
      | canAlloc => exact .goAllocate hpc hb hring
      | cannotAlloc => exact .refuse hpc hb hring
  | readNextFront x q =>
    simp only [hpc, advanceProducer, Option.bind_eq_some_iff] at h
    obtain ⟨b, hb, h⟩ := h
    obtain ⟨hempty, h⟩ := Option.ite_none_right_eq_some.1 h
    obtain rfl := Option.some.inj h
    exact .readNextFront hpc hb hempty
  | constructNext x q i =>
    simp only [hpc, advanceProducer, Option.bind_eq_some_iff, Option.map_eq_some_iff,
      constructAt_eq_some] at h
    obtain ⟨b, hb, _, ⟨hfree, rfl⟩, rfl⟩ := h
    exact .constructNext hpc hb hfree
  | storeNextTail x q i =>
    simp only [hpc, advanceProducer, Option.map_eq_some_iff] at h
    obtain ⟨b, hb, rfl⟩ := h
    exact .storeNextTail hpc hb
  | allocate x p =>
    simp only [hpc, advanceProducer, Option.bind_eq_some_iff, newBlock_eq] at h
    obtain ⟨b, hb, h⟩ := h
    split at h
    · obtain rfl := Option.some.inj h
      rename_i hm
      subst hm
      exact .noMemory hpc
    · obtain ⟨hnew, h⟩ := Option.ite_none_left_eq_some.1 h
      obtain rfl := Option.some.inj h
      exact .allocate hpc hb ‹_› (by simpa using hnew)
  | linkNext x p q =>
    simp only [hpc, advanceProducer, Option.map_eq_some_iff] at h
    obtain ⟨b, hb, rfl⟩ := h
    exact .linkNext hpc hb
  | storeTailBlock x q =>
    simp only [hpc, advanceProducer] at h
    obtain rfl := Option.some.inj h
    exact .storeTailBlock hpc
  | returned success => simp [hpc, advanceProducer] at h

theorem enterConsumer_cases (op : ConsumerOp) (h : enterConsumer s op = some s') :
    ConsumerStep s op.call s' := by
  rw [enterConsumer] at h
  obtain ⟨hpc, h⟩ := Option.ite_none_left_eq_some.1 h
  obtain ⟨b, hb, rfl⟩ := Option.map_eq_some_iff.1 h
  rw [Bool.not_eq_true] at hpc
  split
  · exact .callElement hpc hb ‹_›
  · exact .callEmpty hpc hb (not_not.1 ‹_›)

theorem advanceConsumer_cases (h : advanceConsumer s s.consumer = some s') :
    ConsumerStep s .consume s' := by
  cases hpc : s.consumer with
  | idle => simp [hpc, advanceConsumer] at h
  | readTail op p i =>
    simp only [hpc, advanceConsumer, Option.map_eq_some_iff] at h
    obtain ⟨b, hb, rfl⟩ := h
    split
    · exact .readElement hpc hb ‹_›
    · exact .readEmpty hpc hb (not_not.1 ‹_›)
  | readTailBlock op p =>
    simp only [hpc, advanceConsumer] at h
    split at h
    · obtain rfl := Option.some.inj h
      exact .goAhead hpc ‹_›
    · obtain rfl := Option.some.inj h
      exact .nothing hpc (not_not.1 ‹_›)
  | rereadTail op =>
    simp only [hpc, advanceConsumer, Option.map_eq_some_iff] at h
    obtain ⟨b, hb, rfl⟩ := h
    split
    · exact .rereadElement hpc hb ‹_›
    · exact .rereadEmpty hpc hb (not_not.1 ‹_›)
  | readNext op p =>
    simp only [hpc, advanceConsumer, Option.map_eq_some_iff] at h
    obtain ⟨b, hb, rfl⟩ := h
    exact .readNext hpc hb
  | readNextTail op q =>
    simp only [hpc, advanceConsumer, Option.bind_eq_some_iff] at h
    obtain ⟨b, hb, h⟩ := h
    obtain ⟨hne, h⟩ := Option.ite_none_right_eq_some.1 h
    cases op with
    | peek =>
      obtain rfl := Option.some.inj h
      exact .peekNext hpc hb hne
    | tryDequeue =>
      obtain rfl := Option.some.inj h
      exact .readNextTail hpc hb hne nofun
    | pop =>
      obtain rfl := Option.some.inj h
      exact .readNextTail hpc hb hne nofun
  | storeFrontBlock op q i =>
    simp only [hpc, advanceConsumer] at h
    obtain rfl := Option.some.inj h
    exact .storeFrontBlock hpc
  | take op p i =>
    simp only [hpc, advanceConsumer, Option.bind_eq_some_iff, Option.map_eq_some_iff] at h
    obtain ⟨b, hb, x, hx, rfl⟩ := h
    exact .take hpc hb hx
  | storeFront op p i x =>
    simp only [hpc, advanceConsumer, Option.map_eq_some_iff] at h
    obtain ⟨b, hb, rfl⟩ := h
    exact .storeFront hpc hb
  | returned result => simp [hpc, advanceConsumer] at h

/-- **A step is one of these.** -/
theorem step_cases (h : step maxBlockSize s a = some s') :
    ProducerStep maxBlockSize s a s' ∨ ConsumerStep s a s' := by
  cases a with
  | tryEnqueue x => exact Or.inl (innerEnqueue_cases .cannotAlloc h)
  | enqueue x => exact Or.inl (innerEnqueue_cases .canAlloc h)
  | tryDequeue => exact Or.inr (enterConsumer_cases .tryDequeue h)
  | pop => exact Or.inr (enterConsumer_cases .pop h)
  | peek => exact Or.inr (enterConsumer_cases .peek h)
  | produce m => exact Or.inl (advanceProducer_cases h)
  | consume => exact Or.inr (advanceConsumer_cases h)

end Queue

end AppServer
